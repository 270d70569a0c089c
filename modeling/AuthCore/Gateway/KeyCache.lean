/-
The keys that the requests of a gateway share.  A request takes a key from them while they are
trusted; otherwise it fetches the document, puts the keys of the document in their place and
looks again.  Between any two of these steps other requests may have done the same.
-/
import AuthCore.Gateway.PublicKeys
import AuthCore.Interleave.Soundness

namespace AuthCore.Gateway

open Interleave

/-- What the endpoint may answer a request with, second by second. -/
abbrev Endpoint := Int → List (Except RefreshError Response)

inductive KeyEvent where
  | asked (kid : String)
  | installed (served : Int) (result : Except RefreshError Response)
  | handed (kid : String) (key : PublicKey)

/-- A verifier, the clock, and what each request has done when. -/
structure KeyWorld where
  verifier : JWTVerifier
  now : Int
  log : List (Int × Nat × KeyEvent)

namespace KeyWorld

def record (i : Nat) (event : KeyEvent) (x : KeyWorld) : KeyWorld :=
  { x with log := (x.now, i, event) :: x.log }

def hand (i : Nat) (kid : String) : Option PublicKey → KeyWorld → KeyWorld
  | none, x => x
  | some key, x => x.record i (.handed kid key)

end KeyWorld

/-- Nothing is shared but the verifier. -/
abbrev noRows : Rows Unit where
  Row := Empty
  View _ := Unit
  view _ _ := ()

abbrev Request := Prog noRows KeyWorld RefreshError

/-- Read a key under the read lock. -/
def readKey (kid : String) (query : KeyWorld → Option PublicKey) : Request (Option PublicKey) :=
  .act (fun i _ x => [(query x, x.hand i kid (query x))]) .done

/-- The key, if the keys are trusted. -/
def KeyWorld.cached (kid : String) (x : KeyWorld) : Option PublicKey :=
  if x.now < x.verifier.keysUntil then x.verifier.keys kid else none

/-- `client.Do`: what the endpoint answers and when. -/
def fetch (endpoint : Endpoint) : Request (Int × Except RefreshError Response) :=
  .act (fun _ _ x => (endpoint x.now).map fun result => ((x.now, result), x)) .done

/-- The keys of a document take the place of those before, or nothing changes. -/
def KeyWorld.refresh (i : Nat) (served : Int) (result : Except RefreshError Response)
    (x : KeyWorld) : Except RefreshError Unit × KeyWorld :=
  match x.verifier.refreshKeys result x.now with
  | .ok verifier => (.ok (), KeyWorld.record i (.installed served result)
      { x with verifier := verifier })
  | .error e => (.error e, x)

/-- Put the keys in place under the write lock. -/
def install (served : Int) (result : Except RefreshError Response) : Request Unit :=
  .act (fun i _ x => [x.refresh i served result]) fun
    | .ok () => .done ()
    | .error e => .raise e

/-- `JWTVerifier.key` -/
def JWTVerifier.key (endpoint : Endpoint) (kid : String) : Request PublicKey := do
  match ← readKey kid (KeyWorld.cached kid) with
  | some key => return key
  | none =>
      let (served, result) ← fetch endpoint
      install served result
      match ← readKey kid (fun x => x.verifier.keys kid) with
      | some key => return key
      | none => .raise .tokenInvalid

/-- A gateway: every request asks for one key. -/
def gateway (endpoint : Endpoint) : Service noRows KeyWorld RefreshError PublicKey where
  Call := String
  prog _ kid := JWTVerifier.key endpoint kid
  onCall i kid x := x.record i (.asked kid)
  onReturn _ _ x := x
  tick n x := { x with now := x.now + n }

/-- A gateway that has no keys yet. -/
structure NoKeys (c : Core Unit KeyWorld) : Prop where
  keys : ∀ kid, c.store.verifier.keys kid = none
  log : c.store.log = []

section Origin

variable (endpoint : Endpoint)

/-- The keys that were put in place at `installed` have `key` under `kid`; they are those of a
document that the endpoint had served by then. -/
def Installed (log : List (Int × Nat × KeyEvent)) (installed : Int) (kid : String)
    (key : PublicKey) : Prop :=
  ∃ j served result refreshed, (installed, j, .installed served result) ∈ log ∧
    served ≤ installed ∧ result ∈ endpoint served ∧
    (∀ verifier : JWTVerifier, verifier.refreshKeys result installed = .ok refreshed) ∧
    refreshed.keys kid = some key

/-- The key that request `i` has at `t` was put in place less than five minutes before, or since
the request asked for it. -/
def Fresh (log : List (Int × Nat × KeyEvent)) (t : Int) (i : Nat) (kid : String)
    (key : PublicKey) : Prop :=
  ∃ installed, Installed endpoint log installed kid key ∧ installed ≤ t ∧
    (t < installed + 300 ∨ ∃ began ≤ installed, (began, i, .asked kid) ∈ log)

variable {endpoint} {log log' : List (Int × Nat × KeyEvent)} {kid : String} {key : PublicKey}

theorem Installed.mono {installed : Int} (h : Installed endpoint log installed kid key)
    (hlog : ∀ entry ∈ log, entry ∈ log') : Installed endpoint log' installed kid key := by
  obtain ⟨j, served, result, refreshed, hmem, hrest⟩ := h
  exact ⟨j, served, result, refreshed, hlog _ hmem, hrest⟩

theorem Fresh.mono {t : Int} {i : Nat} (h : Fresh endpoint log t i kid key)
    (hlog : ∀ entry ∈ log, entry ∈ log') : Fresh endpoint log' t i kid key := by
  obtain ⟨installed, horigin, hle, hrecent⟩ := h
  refine ⟨installed, horigin.mono hlog, hle, hrecent.imp_right ?_⟩
  rintro ⟨began, hbegan, hmem⟩
  exact ⟨began, hbegan, hlog _ hmem⟩

end Origin

theorem refreshKeys_ok {verifier refreshed : JWTVerifier} {result : Except RefreshError Response}
    {now : Int} (h : verifier.refreshKeys result now = .ok refreshed) :
    refreshed.keysUntil = now + 300 ∧
      ∀ other : JWTVerifier, other.refreshKeys result now = .ok refreshed := by
  unfold JWTVerifier.refreshKeys at h ⊢
  cases result with
  | error e => cases h
  | ok response =>
      simp only [bind, Except.bind, pure, Except.pure] at h ⊢
      split at h
      · cases h
      · rename_i hstatus
        rw [if_neg hstatus]
        cases hdocument : decodeDocument response.body with
        | error e =>
            rw [hdocument] at h
            cases h
        | ok document =>
            rw [hdocument] at h
            simp only at h ⊢
            cases hkeys : document.foldlM addKey fun _ => none with
            | error e =>
                rw [hkeys] at h
                cases h
            | ok keys =>
                rw [hkeys] at h
                cases h
                exact ⟨rfl, fun other => rfl⟩

/-- The clock and the log only go on. -/
structure KeyWorld.Leads (x x' : KeyWorld) : Prop where
  now : x.now ≤ x'.now
  log : ∀ entry ∈ x.log, entry ∈ x'.log

/-- The keys in place are the last ones put there, and each key handed out is fresh. -/
structure KeyWorld.Inv (endpoint : Endpoint) (x : KeyWorld) : Prop where
  past : ∀ entry ∈ x.log, entry.1 ≤ x.now
  last : ∀ installed j served result, (installed, j, .installed served result) ∈ x.log →
    installed + 300 ≤ x.verifier.keysUntil
  held : ∀ kid key, x.verifier.keys kid = some key →
    Installed endpoint x.log (x.verifier.keysUntil - 300) kid key
  fresh : ∀ t i kid key, (t, i, .handed kid key) ∈ x.log → Fresh endpoint x.log t i kid key

section Steps

variable {endpoint : Endpoint} {x : KeyWorld} {i : Nat} {kid : String}

theorem KeyWorld.Leads.record (i : Nat) (event : KeyEvent) (x : KeyWorld) :
    x.Leads (x.record i event) :=
  ⟨le_refl _, fun _ h => List.mem_cons_of_mem _ h⟩

theorem KeyWorld.Leads.hand (i : Nat) (kid : String) (found : Option PublicKey) (x : KeyWorld) :
    x.Leads (x.hand i kid found) := by
  cases found with
  | none => exact ⟨le_refl _, fun _ h => h⟩
  | some key => exact .record i _ x

theorem KeyWorld.Inv.asked (h : x.Inv endpoint) (i : Nat) (kid : String) :
    (x.record i (.asked kid)).Inv endpoint := by
  have hold := (KeyWorld.Leads.record i (.asked kid) x).log
  refine ⟨?_, ?_, fun kid key hkey => (h.held kid key hkey).mono hold, ?_⟩
  · intro entry hentry
    rcases List.mem_cons.mp hentry with rfl | hmem
    · exact le_refl _
    · exact h.past entry hmem
  · intro installed j served result hmem
    rcases List.mem_cons.mp hmem with heq | hmem
    · cases heq
    · exact h.last _ _ _ _ hmem
  · intro t j kid key hmem
    rcases List.mem_cons.mp hmem with heq | hmem
    · cases heq
    · exact (h.fresh _ _ _ _ hmem).mono hold

theorem KeyWorld.Inv.hand {found : Option PublicKey} (h : x.Inv endpoint)
    (hfresh : ∀ key, found = some key → Fresh endpoint x.log x.now i kid key) :
    (x.hand i kid found).Inv endpoint := by
  cases found with
  | none => exact h
  | some key =>
      have hold := (KeyWorld.Leads.record i (.handed kid key) x).log
      refine ⟨?_, ?_, fun kid key hkey => (h.held kid key hkey).mono hold, ?_⟩
      · intro entry hentry
        rcases List.mem_cons.mp hentry with rfl | hmem
        · exact le_refl _
        · exact h.past entry hmem
      · intro installed j served result hmem
        rcases List.mem_cons.mp hmem with heq | hmem
        · cases heq
        · exact h.last _ _ _ _ hmem
      · intro t j kid' key' hmem
        rcases List.mem_cons.mp hmem with heq | hmem
        · cases heq
          exact (hfresh key rfl).mono hold
        · exact (h.fresh _ _ _ _ hmem).mono hold

theorem KeyWorld.refresh_cases (i : Nat) (served : Int) (result : Except RefreshError Response)
    (x : KeyWorld) :
    (∃ verifier, x.verifier.refreshKeys result x.now = .ok verifier ∧
      x.refresh i served result = (.ok (), KeyWorld.record i (.installed served result)
        { x with verifier := verifier })) ∨
    ∃ e, x.refresh i served result = (.error e, x) := by
  unfold KeyWorld.refresh
  cases hrefresh : x.verifier.refreshKeys result x.now with
  | ok verifier => exact Or.inl ⟨verifier, rfl, rfl⟩
  | error e => exact Or.inr ⟨e, rfl⟩

theorem KeyWorld.Inv.installed {served : Int} {result : Except RefreshError Response}
    {verifier : JWTVerifier} (h : x.Inv endpoint)
    (hrefresh : x.verifier.refreshKeys result x.now = .ok verifier) (hserved : served ≤ x.now)
    (hresult : result ∈ endpoint served) :
    (KeyWorld.record i (.installed served result) { x with verifier := verifier }).Inv
      endpoint := by
  obtain ⟨huntil, hsame⟩ := refreshKeys_ok hrefresh
  have hold : ∀ entry ∈ x.log, entry ∈ (x.now, i, .installed served result) :: x.log :=
    fun _ hmem => List.mem_cons_of_mem _ hmem
  refine ⟨?_, ?_, fun kid key hkey => ?_, ?_⟩
  · intro entry hentry
    rcases List.mem_cons.mp hentry with rfl | hmem
    · exact le_refl _
    · exact h.past entry hmem
  · intro installed j served' result' hmem
    change installed + 300 ≤ verifier.keysUntil
    rw [huntil]
    rcases List.mem_cons.mp hmem with heq | hmem
    · cases heq
      exact le_refl _
    · have hpast : installed ≤ x.now := h.past _ hmem
      omega
  · have hnow : verifier.keysUntil - 300 = x.now := by omega
    change Installed endpoint _ (verifier.keysUntil - 300) kid key
    rw [hnow]
    exact ⟨i, served, result, verifier, List.mem_cons_self, hserved, hresult, hsame, hkey⟩
  · intro t j kid key hmem
    rcases List.mem_cons.mp hmem with heq | hmem
    · cases heq
    · exact (h.fresh _ _ _ _ hmem).mono hold

/-- The keys in place were put there in the past. -/
theorem KeyWorld.Inv.held_le (h : x.Inv endpoint) {key : PublicKey}
    (hkey : x.verifier.keys kid = some key) : x.verifier.keysUntil - 300 ≤ x.now := by
  obtain ⟨j, served, result, refreshed, hmem, _⟩ := h.held kid key hkey
  exact h.past _ hmem

end Steps

/-- Between two of its steps a request finds that the clock and the log have gone on. -/
def keyProtocol (endpoint : Endpoint) : Protocol Unit KeyWorld where
  inv c := c.store.Inv endpoint
  rely _ c c' := c.store.Leads c'.store
  idle _ _ := True
  final _ _ := True
  rely_refl _ _ := ⟨le_refl _, fun _ h => h⟩
  rely_trans h h' := ⟨h.now.trans h'.now, fun entry hmem => h'.log entry (h.log entry hmem)⟩
  idle_stable _ _ := trivial
  final_stable _ _ := trivial

section Kept

variable {endpoint : Endpoint} {i : Nat} {kid : String}

/-- The end of a request records nothing. -/
theorem returns_key (result : Except RefreshError PublicKey) {c : Core Unit KeyWorld} :
    (keyProtocol endpoint).Returns (gateway endpoint) i result c :=
  fun _ hlater => ⟨⟨hlater.2, fun _ _ => ⟨le_refl _, fun _ h => h⟩⟩, trivial⟩

variable {Q : Core Unit KeyWorld → Prop} {E : RefreshError → Core Unit KeyWorld → Prop}
  {c : Core Unit KeyWorld}

/-- One read: what is found is handed out at once. -/
theorem wp_readKey {query : KeyWorld → Option PublicKey}
    {Q : Option PublicKey → Core Unit KeyWorld → Prop}
    (hfresh : ∀ c', (keyProtocol endpoint).Later i c c' → ∀ key, query c'.store = some key →
      Fresh endpoint c'.store.log c'.store.now i kid key)
    (hQ : ∀ c' found, (keyProtocol endpoint).Later i c c' → Q found c') :
    (keyProtocol endpoint).wp i Q E (readKey kid query) c := by
  intro c' hlater answer hanswer
  obtain rfl := List.mem_singleton.mp hanswer
  have hinv := KeyWorld.Inv.hand hlater.2 (hfresh c' hlater)
  have hleads := KeyWorld.Leads.hand i kid (query c'.store) c'.store
  exact ⟨⟨hinv, fun _ _ => hleads⟩, hQ _ _ (hlater.trans ⟨hleads, hinv⟩)⟩

theorem wp_fetch {Q : Int × Except RefreshError Response → Core Unit KeyWorld → Prop}
    (hQ : ∀ c' result, (keyProtocol endpoint).Later i c c' → result ∈ endpoint c'.store.now →
      Q (c'.store.now, result) c') :
    (keyProtocol endpoint).wp i Q E (fetch endpoint) c := by
  intro c' hlater answer hanswer
  obtain ⟨result, hresult, rfl⟩ := List.mem_map.mp hanswer
  exact ⟨⟨hlater.2, fun _ _ => ⟨le_refl _, fun _ h => h⟩⟩, hQ c' result hlater hresult⟩

/-- A refresh that succeeds is on record from then on. -/
theorem wp_install {served : Int} {result : Except RefreshError Response}
    (hserved : served ≤ c.store.now) (hresult : result ∈ endpoint served)
    (hQ : ∀ c', (keyProtocol endpoint).Later i c c' → ∀ installed, c.store.now ≤ installed →
      (installed, i, .installed served result) ∈ c'.store.log → Q c')
    (hE : ∀ c' e, (keyProtocol endpoint).Later i c c' → E e c') :
    (keyProtocol endpoint).wp i (fun _ => Q) E (install served result) c := by
  intro c' hlater answer hanswer
  obtain rfl := List.mem_singleton.mp hanswer
  rcases KeyWorld.refresh_cases i served result c'.store with ⟨verifier, hrefresh, heq⟩ | ⟨e, heq⟩
  · rw [heq]
    have hinv := hlater.2.installed (i := i) hrefresh (hserved.trans hlater.1.now) hresult
    have hleads : c'.store.Leads (KeyWorld.record i (.installed served result)
        { c'.store with verifier := verifier }) :=
      ⟨le_refl _, fun _ h => List.mem_cons_of_mem _ h⟩
    exact ⟨⟨hinv, fun _ _ => hleads⟩,
      hQ _ (hlater.trans ⟨hleads, hinv⟩) c'.store.now hlater.1.now List.mem_cons_self⟩
  · rw [heq]
    exact ⟨⟨hlater.2, fun _ _ => ⟨le_refl _, fun _ h => h⟩⟩, hE c' e hlater⟩

theorem wpCall_key {began : Int} (hinv : c.store.Inv endpoint)
    (hasked : (began, i, .asked kid) ∈ c.store.log) :
    (keyProtocol endpoint).wpCall (gateway endpoint) i (JWTVerifier.key endpoint kid) c := by
  have hbegan : began ≤ c.store.now := hinv.past _ hasked
  refine Protocol.wp_bind _ (wp_readKey ?_ ?_)
  · -- trusted keys were put in place less than five minutes ago
    intro c' hlater key hkey
    have htrusted : c'.store.now < c'.store.verifier.keysUntil := by
      by_contra hold
      rw [KeyWorld.cached, if_neg hold] at hkey
      cases hkey
    rw [KeyWorld.cached, if_pos htrusted] at hkey
    exact ⟨_, hlater.2.held kid key hkey, hlater.2.held_le hkey, Or.inl (by omega)⟩
  intro c₁ found hlater₁
  cases found with
  | some key => exact returns_key (.ok key)
  | none =>
      refine Protocol.wp_bind _ (wp_fetch ?_)
      intro c₂ result hlater₂ hresult
      refine Protocol.wp_bind _ (wp_install (le_refl _) hresult ?_ fun _ e _ =>
        returns_key (.error e))
      intro c₃ hlater₃ installed hinstalled hown
      have hlate : c.store.now ≤ c₂.store.now := (hlater₁.trans hlater₂).1.now
      refine Protocol.wp_bind _ (wp_readKey ?_ ?_)
      · -- the keys in place are no older than those this request has put there
        intro c₄ hlater₄ key hkey
        have hlast := hlater₄.2.last _ _ _ _ (hlater₄.1.log _ hown)
        have hmem := hlater₄.1.log _ (hlater₃.1.log _ ((hlater₁.trans hlater₂).1.log _ hasked))
        have hafter : c₂.store.now ≤ installed := hinstalled
        exact ⟨_, hlater₄.2.held kid key hkey, hlater₄.2.held_le hkey,
          Or.inr ⟨began, by omega, hmem⟩⟩
      · intro _ found _
        cases found with
        | some key => exact returns_key (.ok key)
        | none => exact returns_key (.error .tokenInvalid)

theorem kept_key : (keyProtocol endpoint).Kept (gateway endpoint) where
  call i kid c hinv _ := by
    have hasked := KeyWorld.Inv.asked hinv i kid
    exact ⟨⟨hasked, fun _ _ => .record i _ _⟩, wpCall_key hasked List.mem_cons_self⟩
  tick n c hinv := by
    have hlate : c.store.now ≤ c.store.now + n := by omega
    refine ⟨⟨fun entry hentry => (hinv.past entry hentry).trans hlate, hinv.last, hinv.held,
      hinv.fresh⟩, fun _ => ⟨hlate, fun _ h => h⟩⟩

theorem fresh_of_reachable {c : Core Unit KeyWorld}
    {s : Config noRows KeyWorld RefreshError PublicKey} (hinit : NoKeys c)
    (h : (gateway endpoint).Reachable c s) {t : Int} {key : PublicKey}
    (hhanded : (t, i, .handed kid key) ∈ s.core.store.log) :
    Fresh endpoint s.core.store.log t i kid key := by
  have hstart : (keyProtocol endpoint).inv c := by
    refine ⟨?_, ?_, fun kid key hkey => ?_, ?_⟩
    · simp [hinit.log]
    · simp [hinit.log]
    · rw [hinit.keys] at hkey
      cases hkey
    · simp [hinit.log]
  exact (kept_key.inv_of_reachable hstart (fun _ => trivial) h).fresh t i kid key hhanded

/-- In every run, each key that a request takes is the key of its name in a document that the
endpoint has served; the keys of that document were put in place less than five minutes before,
or since the request began. -/
theorem fresh_keys {c : Core Unit KeyWorld} {s : Config noRows KeyWorld RefreshError PublicKey}
    (hinit : NoKeys c) (h : (gateway endpoint).Reachable c s) {t : Int} {key : PublicKey}
    (hhanded : (t, i, .handed kid key) ∈ s.core.store.log) :
    ∃ served installed result refreshed, served ≤ installed ∧ installed ≤ t ∧
      result ∈ endpoint served ∧
      JWTVerifier.refreshKeys ⟨fun _ => none, 0⟩ result installed = .ok refreshed ∧
      refreshed.keys kid = some key ∧
      (t < installed + 300 ∨
        ∃ began ≤ installed, (began, i, .asked kid) ∈ s.core.store.log) := by
  obtain ⟨installed, ⟨j, served, result, refreshed, _, hserved, hresult, hrefresh, hkey⟩, hle,
    hrecent⟩ := fresh_of_reachable hinit h hhanded
  exact ⟨served, installed, result, refreshed, hserved, hle, hresult, hrefresh _, hkey, hrecent⟩

end Kept

section Published

open LocalRS256TokenProvider

/-- The API serves the document of a key that it has in use, or cannot be reached. -/
def published (digest : KeyDigest) (current : Int → List PublicNumbers) : Endpoint := fun t =>
  .error .request :: (current t).filterMap fun numbers =>
    (jwks digest numbers).map fun document => .ok ⟨200, document⟩

/-- The keys of a published document: one, with the numbers and the name of the API's key. -/
theorem published_key {digest : KeyDigest} {current : Int → List PublicNumbers} {served now : Int}
    {result : Except RefreshError Response} {verifier refreshed : JWTVerifier} {name : String}
    {key : PublicKey} (hresult : result ∈ published digest current served)
    (hrefresh : verifier.refreshKeys result now = .ok refreshed)
    (hkey : refreshed.keys name = some key) :
    ∃ numbers ∈ current served, name = kid digest numbers ∧ key.n = numbers.n ∧
      key.e.toInt = numbers.e := by
  rcases List.mem_cons.mp hresult with rfl | hmem
  · cases hrefresh
  obtain ⟨numbers, hcurrent, hdocument⟩ := List.mem_filterMap.mp hmem
  obtain ⟨document, hjwks, hrefreshed⟩ := refreshKeys_jwks verifier digest numbers now
  rw [hjwks, Option.map_some, Option.some.injEq] at hdocument
  rw [← hdocument, hrefreshed] at hrefresh
  split at hrefresh
  · cases hrefresh
  · rename_i hsmall
    obtain rfl := Except.ok.inj hrefresh
    obtain ⟨rfl, hvalue⟩ : name = kid digest numbers ∧
        (⟨numbers.n, Int64.ofNat numbers.e⟩ : PublicKey) = key := by
      by_cases hname : name = kid digest numbers
      · subst hname
        exact ⟨rfl, by simpa using hkey⟩
      · simp [hname] at hkey
    subst hvalue
    exact ⟨numbers, hcurrent, rfl, rfl, Int64.toInt_ofNat_of_lt (Nat.lt_of_not_le hsmall)⟩

/-- In every run, a gateway takes under a name only a key that the API had in use under that
name: when the document was served that was put in place less than five minutes before, or since
the request began. -/
theorem keys_in_use {digest : KeyDigest} {current : Int → List PublicNumbers}
    {c : Core Unit KeyWorld} {s : Config noRows KeyWorld RefreshError PublicKey} (hinit : NoKeys c)
    (h : (gateway (published digest current)).Reachable c s) {t : Int} {i : Nat} {name : String}
    {key : PublicKey} (hhanded : (t, i, .handed name key) ∈ s.core.store.log) :
    ∃ served installed, served ≤ installed ∧ installed ≤ t ∧
      (t < installed + 300 ∨
        ∃ began ≤ installed, (began, i, .asked name) ∈ s.core.store.log) ∧
      ∃ numbers ∈ current served, name = kid digest numbers ∧ key.n = numbers.n ∧
        key.e.toInt = numbers.e := by
  obtain ⟨installed, ⟨j, served, result, refreshed, _, hserved, hresult, hrefresh, hkey⟩, hle,
    hrecent⟩ := fresh_of_reachable hinit h hhanded
  exact ⟨served, installed, hserved, hle, hrecent,
    published_key hresult (hrefresh ⟨fun _ => none, 0⟩) hkey⟩

/-- The keys that requests have taken so far. -/
def KeyWorld.handed (x : KeyWorld) : List (Int × Nat × String × PublicKey) :=
  x.log.filterMap fun entry =>
    match entry.2.2 with
    | .handed kid key => some (entry.1, entry.2.1, kid, key)
    | _ => none

theorem KeyWorld.mem_handed {x : KeyWorld} {t : Int} {i : Nat} {kid : String} {key : PublicKey}
    (h : (t, i, kid, key) ∈ x.handed) : (t, i, .handed kid key) ∈ x.log := by
  obtain ⟨⟨t', i', event⟩, hmem, hevent⟩ := List.mem_filterMap.mp h
  cases event with
  | handed kid' key' =>
      cases hevent
      exact hmem
  | _ => cases hevent

/-- One key in use until second 100 and another one from then on. -/
def sampleEndpoint : Endpoint :=
  published sampleDigest fun t => if t < 100 then [⟨3233, 17⟩] else [⟨3127, 17⟩]

/-- The first request fetches a key and a later one still takes it from the gateway, although
the API has another one by then. -/
def sampleRequests : List (Move (gateway sampleEndpoint)) :=
  let name := kid sampleDigest ⟨3233, 17⟩
  [.call 0 name, .step 0 0, .step 0 1, .step 0 0, .step 0 0, .tick 299, .call 1 name, .step 1 0]

def noKeys : Core Unit KeyWorld :=
  ⟨(), ⟨fun _ => none, 0⟩, 0, []⟩

theorem reachable_sample : ∃ s, (gateway sampleEndpoint).Reachable noKeys s ∧
    (299, 1, kid sampleDigest ⟨3233, 17⟩, ⟨3233, 17⟩) ∈ s.core.store.handed := by
  have hrun : ((gateway sampleEndpoint).run (Service.start noKeys) sampleRequests).map
      (fun s => s.core.store.handed.contains
        (299, 1, kid sampleDigest ⟨3233, 17⟩, ⟨3233, 17⟩)) = some true := by
    decide +kernel
  obtain ⟨s, hreach, hfound⟩ := Service.reachable_of_run hrun
  exact ⟨s, hreach, by simpa using hfound⟩

theorem fresh_keys_sample : ∃ served installed result refreshed, served ≤ installed ∧
    installed ≤ 299 ∧ result ∈ sampleEndpoint served ∧
    JWTVerifier.refreshKeys ⟨fun _ => none, 0⟩ result installed = .ok refreshed ∧
    refreshed.keys (kid sampleDigest ⟨3233, 17⟩) = some ⟨3233, 17⟩ := by
  obtain ⟨s, hreach, hmem⟩ := reachable_sample
  obtain ⟨served, installed, result, refreshed, hserved, hle, hresult, hrefresh, hkey, _⟩ :=
    fresh_keys ⟨fun _ => rfl, rfl⟩ hreach (KeyWorld.mem_handed hmem)
  exact ⟨served, installed, result, refreshed, hserved, hle, hresult, hrefresh, hkey⟩

/-- The key was in use when it was fetched, though not when it is taken. -/
theorem keys_in_use_sample : ∃ served : Int, served < 100 ∧ ∃ numbers : PublicNumbers,
    kid sampleDigest ⟨3233, 17⟩ = kid sampleDigest numbers ∧ numbers.n = 3233 := by
  obtain ⟨s, hreach, hmem⟩ := reachable_sample
  obtain ⟨served, _, _, _, _, numbers, hcurrent, hname, hn, _⟩ :=
    keys_in_use ⟨fun _ => rfl, rfl⟩ hreach (KeyWorld.mem_handed hmem)
  have hmodulus : numbers.n = 3233 := hn.symm
  refine ⟨served, ?_, numbers, hname, hmodulus⟩
  by_contra hlate
  rw [if_neg hlate, List.mem_singleton] at hcurrent
  rw [hcurrent] at hmodulus
  cases hmodulus

end Published

end AuthCore.Gateway
