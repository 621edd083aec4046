/-
  API-key authentication (`resolve_api_key` and `_TTLCache` in
  `app/services/auth.py`, `auth_resolve_api_key` in migration 004).

  A call of `resolve_api_key` asks the cache, then the database, evaluates the
  row that it got, and stores its decision, also a negative one, before it
  returns.  Calls interleave between these steps; the clock advances, the cache
  is cleared or loses entries, and the table of keys changes at any time.
-/
import Mathlib.Algebra.Order.Ring.Rat
import OcrService.Lib.PyStr
import OcrService.Lib.Pool
import OcrService.Lib.TtlCache
import OcrService.Db.Models

namespace OcrService

open Trans

/-- A row of `auth_resolve_api_key`. -/
structure ResolvedKey where
  tenantId : Uuid
  scopes : List String
  expiresAt : Option ℚ
  revokedAt : Option ℚ
  deriving DecidableEq

/-- A row of `api_keys`, as far as authentication reads it. -/
structure ApiKey extends ResolvedKey where
  keyHash : String
  deriving DecidableEq

structure AuthContext where
  tenantId : Uuid
  principal : String
  scopes : List String := []
  deriving DecidableEq

def authResolveApiKey (apiKeys : List ApiKey) (hash : String) : List ResolvedKey :=
  (apiKeys.filter fun r => r.keyHash = hash).map ApiKey.toResolvedKey

/-- The hash of a raw key, and what the wall clock shows when the monotonic clock
    shows zero. -/
structure AuthSite where
  hashApiKey : String → String
  epoch : ℚ

def AuthSite.wall (A : AuthSite) (now : ℚ) : ℚ := A.epoch + now

/-- `_expired`, with what the wall clock shows. -/
def expired : Option ℚ → ℚ → Bool
  | none, _ => false
  | some expiresAt, now => expiresAt ≤ now

/-- The context of a key whose row was accepted. -/
def contextOf (rawKey : String) (row : ResolvedKey) : AuthContext where
  tenantId := row.tenantId
  principal := "apikey:" ++ String.ofList ((rawKey.toList.drop 4).take 8)
  scopes := row.scopes

/-- What `resolve_api_key` decides on the row it got; `none` is an `AuthError`. -/
def decision (A : AuthSite) (rawKey : String) (now : ℚ) : Option ResolvedKey → Option AuthContext
  | none => none
  | some row =>
    if row.revokedAt.isSome ∨ expired row.expiresAt (A.wall now) then none
    else some (contextOf rawKey row)

inductive AuthPc
  | get
  | lookup
  | evaluate (row : Option ResolvedKey)
  | set (value : Option AuthContext)
  | returned (context : AuthContext)
  | raised
  deriving DecidableEq

/-- A call of `resolve_api_key`, and when it took its last step. -/
structure AuthCall where
  rawKey : String
  pc : AuthPc := .get
  time : ℚ
  deriving DecidableEq

/-- `_key_cache`: decisions by key hash, negative ones too. -/
abbrev KeyCache := Ttl.Cache String (Option AuthContext) ℚ

structure AuthState where
  now : ℚ
  apiKeys : List ApiKey
  cache : KeyCache
  calls : List AuthCall := []

/-- The next step of a call: where it goes on, and the cache afterwards. -/
def AuthCall.move (A : AuthSite) (q : AuthState) (c : AuthCall) : Option (AuthPc × KeyCache) :=
  let keyHash := A.hashApiKey c.rawKey
  match c.pc with
  | .get =>
    match q.cache.get q.now keyHash with
    | (none, cache) => some (.lookup, cache)
    | (some none, cache) => some (.raised, cache)
    | (some (some value), cache) => some (.returned value, cache)
  | .lookup => some (.evaluate (authResolveApiKey q.apiKeys keyHash).head?, q.cache)
  | .evaluate row => some (.set (decision A c.rawKey q.now row), q.cache)
  | .set value =>
    let pc := match value with
      | none => .raised
      | some context => .returned context
    some (pc, q.cache.set q.now keyHash value)
  | .returned _ | .raised => none

/-- What happens: a call begins, takes a step, or fails in the database; the clock
    advances; the cache is cleared or loses an entry; the keys are changed. -/
inductive AuthEvent
  | resolve (rawKey : String)
  | step (i : ℕ)
  | fail (i : ℕ)
  | tick (d : ℚ)
  | clear
  | evict (keyHash : String)
  | change (apiKeys : List ApiKey)

namespace AuthState

/-- Call `i` goes on at `pc`. -/
def goto (q : AuthState) (i : ℕ) (c : AuthCall) (pc : AuthPc) : AuthState :=
  { q with calls := q.calls.set i { c with pc, time := q.now } }

def step (A : AuthSite) (q : AuthState) : AuthEvent → Option AuthState
  | .resolve rawKey => some { q with calls := q.calls ++ [{ rawKey, time := q.now }] }
  | .step i =>
    match q.calls[i]? with
    | none => none
    | some c => (c.move A q).map fun m => { q.goto i c m.1 with cache := m.2 }
  | .fail i =>
    match q.calls[i]? with
    | none => none
    | some c => if c.pc = .lookup then some (q.goto i c .raised) else none
  | .tick d => if 0 ≤ d then some { q with now := q.now + d } else none
  | .clear => some { q with cache := q.cache.clear }
  | .evict keyHash => some { q with cache := q.cache.evict keyHash }
  | .change apiKeys => some { q with apiKeys }

/-- The service has just started. -/
structure Started (q : AuthState) : Prop where
  cache : q.cache.data = ∅
  calls : q.calls = []

end AuthState

/-! ## What a step does -/

section
variable {A : AuthSite} {q q' : AuthState} {c : AuthCall} {i : ℕ} {a : AuthEvent}

/-- The steps of a call. -/
inductive Moves (A : AuthSite) (q : AuthState) (c : AuthCall) : AuthPc → KeyCache → Prop
  | miss (hpc : c.pc = .get) : Moves A q c .lookup (q.cache.get q.now (A.hashApiKey c.rawKey)).2
  | hit {context : AuthContext} (hpc : c.pc = .get)
      (h : (q.cache.get q.now (A.hashApiKey c.rawKey)).1 = some (some context)) :
      Moves A q c (.returned context) (q.cache.get q.now (A.hashApiKey c.rawKey)).2
  | refuse (hpc : c.pc = .get) : Moves A q c .raised (q.cache.get q.now (A.hashApiKey c.rawKey)).2
  | lookup (hpc : c.pc = .lookup) :
      Moves A q c (.evaluate (authResolveApiKey q.apiKeys (A.hashApiKey c.rawKey)).head?) q.cache
  | evaluate {row : Option ResolvedKey} (hpc : c.pc = .evaluate row) :
      Moves A q c (.set (decision A c.rawKey q.now row)) q.cache
  | reject (hpc : c.pc = .set none) :
      Moves A q c .raised (q.cache.set q.now (A.hashApiKey c.rawKey) none)
  | accept {context : AuthContext} (hpc : c.pc = .set (some context)) :
      Moves A q c (.returned context) (q.cache.set q.now (A.hashApiKey c.rawKey) (some context))

theorem AuthCall.moves {m : AuthPc × KeyCache} (h : c.move A q = some m) : Moves A q c m.1 m.2 := by
  cases hpc : c.pc <;> simp only [AuthCall.move, hpc, reduceCtorEq, Option.some.injEq] at h
  case get =>
    split at h <;> rename_i hget <;> cases h
    · exact congrArg Prod.snd hget ▸ .miss hpc
    · exact congrArg Prod.snd hget ▸ .refuse hpc
    · exact congrArg Prod.snd hget ▸ .hit hpc (congrArg Prod.fst hget)
  case lookup => exact h ▸ .lookup hpc
  case evaluate row => exact h ▸ .evaluate hpc
  case set value =>
    cases value with
    | none => exact h ▸ .reject hpc
    | some context => exact h ▸ .accept hpc

/-- The state after an event, case by case. -/
inductive Stepped (A : AuthSite) (q : AuthState) : AuthEvent → AuthState → Prop
  | resolve {rawKey : String} :
      Stepped A q (.resolve rawKey) { q with calls := q.calls ++ [{ rawKey, time := q.now }] }
  | step {i : ℕ} {c : AuthCall} {pc : AuthPc} {cache : KeyCache} (hc : q.calls[i]? = some c)
      (hm : Moves A q c pc cache) : Stepped A q (.step i) { q.goto i c pc with cache }
  | fail {i : ℕ} {c : AuthCall} (hc : q.calls[i]? = some c) (hpc : c.pc = .lookup) :
      Stepped A q (.fail i) (q.goto i c .raised)
  | tick {d : ℚ} (hd : 0 ≤ d) : Stepped A q (.tick d) { q with now := q.now + d }
  | clear : Stepped A q .clear { q with cache := q.cache.clear }
  | evict {keyHash : String} : Stepped A q (.evict keyHash) { q with cache := q.cache.evict keyHash }
  | change {apiKeys : List ApiKey} : Stepped A q (.change apiKeys) { q with apiKeys }

theorem AuthState.stepped (h : q.step A a = some q') : Stepped A q a q' := by
  cases a <;> simp only [AuthState.step, Option.some.injEq] at h
  case resolve rawKey => exact h ▸ .resolve
  case step i =>
    cases hc : q.calls[i]? with
    | none =>
      rw [hc] at h
      cases h
    | some c =>
      rw [hc] at h
      obtain ⟨m, hm, rfl⟩ := Option.map_eq_some_iff.1 h
      exact .step hc (AuthCall.moves hm)
  case fail i =>
    cases hc : q.calls[i]? with
    | none =>
      rw [hc] at h
      cases h
    | some c =>
      simp only [hc] at h
      split_ifs at h with hpc
      cases h
      exact .fail hc hpc
  case tick d =>
    split_ifs at h with hd
    cases h
    exact .tick hd
  case clear => exact h ▸ .clear
  case evict keyHash => exact h ▸ .evict
  case change apiKeys => exact h ▸ .change

/-- The calls after an event: a new one, one that moved, and those of before. -/
theorem Stepped.mem_calls (h : Stepped A q a q') {c' : AuthCall} (hc' : c' ∈ q'.calls) :
    c' ∈ q.calls ∨ c'.pc = .get ∨ c'.pc = .raised ∨
      ∃ i c pc cache, a = .step i ∧ c ∈ q.calls ∧ q.calls[i]? = some c ∧ Moves A q c pc cache ∧
        c' = { c with pc, time := q.now } := by
  cases h with
  | resolve =>
    rcases List.mem_append.1 hc' with hc' | hc'
    · exact Or.inl hc'
    · exact Or.inr (Or.inl (by rw [List.mem_singleton.1 hc']))
  | @step i c pc cache hc hm =>
    rcases List.mem_or_eq_of_mem_set hc' with hc' | rfl
    · exact Or.inl hc'
    · exact Or.inr (Or.inr (Or.inr ⟨i, c, pc, cache, rfl, List.mem_of_getElem? hc, hc, hm, rfl⟩))
  | fail hc hpc =>
    rcases List.mem_or_eq_of_mem_set hc' with hc' | rfl
    · exact Or.inl hc'
    · exact Or.inr (Or.inr (Or.inl rfl))
  | tick | clear | evict | change => exact Or.inl hc'

/-- The entries after an event: one that a call stored, and those of before. -/
theorem Stepped.entry (h : Stepped A q a q') {k : String} {e : ℚ × Option AuthContext}
    (he : q'.cache.entry k = some e) :
    q.cache.entry k = some e ∨
      ∃ i c value, a = .step i ∧ q.calls[i]? = some c ∧ c.pc = .set value ∧ k = A.hashApiKey c.rawKey ∧
        e = (q.now + q.cache.ttl, value) := by
  cases h with
  | @step i c pc cache hc hm =>
    have hset : ∀ value, c.pc = .set value →
        (q.cache.set q.now (A.hashApiKey c.rawKey) value).entry k = some e →
        q.cache.entry k = some e ∨
          ∃ i' c' value, .step i = AuthEvent.step i' ∧ q.calls[i']? = some c' ∧ c'.pc = .set value ∧
            k = A.hashApiKey c'.rawKey ∧ e = (q.now + q.cache.ttl, value) := by
      intro value hpc he
      rcases Ttl.Cache.entry_set he with ⟨hk, rfl⟩ | he
      · exact Or.inr ⟨i, c, value, rfl, hc, hpc, hk, rfl⟩
      · exact Or.inl he
    cases hm with
    | miss | hit | refuse => exact Or.inl (Ttl.Cache.entry_get he)
    | lookup | evaluate => exact Or.inl he
    | reject hpc => exact hset _ hpc he
    | accept hpc => exact hset _ hpc he
  | clear => cases Ttl.Cache.entry_clear.symm.trans he
  | evict => exact Or.inl (Ttl.Cache.entry_evict he)
  | resolve | fail | tick | change => exact Or.inl he

/-- What a cache is set up with stays, and it keeps its bound. -/
structure Keeps (cache cache' : KeyCache) : Prop where
  ttl : cache'.ttl = cache.ttl
  maxsize : cache'.maxsize = cache.maxsize
  size : 1 ≤ cache.maxsize → cache.size ≤ cache.maxsize → cache'.size ≤ cache.maxsize

theorem Keeps.refl (cache : KeyCache) : Keeps cache cache := ⟨rfl, rfl, fun _ h => h⟩

theorem keeps_evict (cache : KeyCache) (k : String) : Keeps cache (cache.evict k) :=
  ⟨rfl, rfl, fun _ h => Ttl.Cache.size_evict_le.trans h⟩

theorem keeps_get (cache : KeyCache) (now : ℚ) (k : String) : Keeps cache (cache.get now k).2 := by
  rcases cache.get_snd now k with h | h <;> rw [h]
  · exact .refl _
  · exact keeps_evict _ _

theorem keeps_set (cache : KeyCache) (now : ℚ) (k : String) (v : Option AuthContext) :
    Keeps cache (cache.set now k v) := ⟨rfl, rfl, fun h _ => Ttl.Cache.size_set_le h⟩

theorem Moves.keeps {pc : AuthPc} {cache : KeyCache} (h : Moves A q c pc cache) : Keeps q.cache cache := by
  cases h with
  | miss | hit | refuse => exact keeps_get _ _ _
  | lookup | evaluate => exact .refl _
  | reject | accept => exact keeps_set _ _ _ _

theorem Stepped.keeps (h : Stepped A q a q') : Keeps q.cache q'.cache := by
  cases h with
  | step hc hm => exact hm.keeps
  | clear => exact ⟨rfl, rfl, fun _ _ => Nat.zero_le _⟩
  | evict => exact keeps_evict _ _
  | resolve | fail | tick | change => exact .refl _

/-- The clock does not go back. -/
theorem Stepped.now_le (h : Stepped A q a q') : q.now ≤ q'.now := by
  cases h with
  | tick hd => exact le_add_of_nonneg_right hd
  | resolve | step | fail | clear | evict | change => exact le_rfl

end

end OcrService
