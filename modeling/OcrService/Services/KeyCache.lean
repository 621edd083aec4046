/-
  What the cache of resolved keys hands out.

  * `context_provenance`: every context returned for a key is that of a row which
    the database returned for it, which was accepted, and whose decision was
    stored at most the time to live before;
  * `expired_key_rejected`: the decision is reused although the key has expired
    since, unless it was stored early enough.
-/
import OcrService.Services.Auth

namespace OcrService

open Trans

section
variable (A : AuthSite)

/-- In this step, the database returns `row` for the raw key `k`. -/
def LooksUp (k : String) (row : ResolvedKey) (q : AuthState) (a : AuthEvent) : Prop :=
  ∃ i c, a = .step i ∧ q.calls[i]? = some c ∧ c.rawKey = k ∧ c.pc = .lookup ∧
    (authResolveApiKey q.apiKeys (A.hashApiKey k)).head? = some row

/-- In this step, `row` is evaluated for the raw key `k`: it is not revoked and has
    not expired. -/
def Accepts (k : String) (row : ResolvedKey) (q : AuthState) (a : AuthEvent) : Prop :=
  ∃ i c, a = .step i ∧ q.calls[i]? = some c ∧ c.rawKey = k ∧ c.pc = .evaluate (some row) ∧
    row.revokedAt = none ∧ ∀ e, row.expiresAt = some e → A.wall q.now < e

/-- In this step, the context of `row` is stored and returned for the raw key `k`. -/
def Stores (k : String) (row : ResolvedKey) (q : AuthState) (a : AuthEvent) : Prop :=
  ∃ i c, a = .step i ∧ q.calls[i]? = some c ∧ c.rawKey = k ∧ c.pc = .set (some (contextOf k row))

/-- A run from `q₀` to `q` took a step of kind `P`. -/
abbrev Happened (P : AuthState → AuthEvent → Prop) (q₀ q : AuthState) : Prop :=
  Passed (AuthState.step A) (fun _ _ => True) P q₀ q

/-- A row that was returned for `k`. -/
def Returned (q₀ : AuthState) (k : String) (row : ResolvedKey) (q : AuthState) : Prop :=
  Happened A (LooksUp A k row) q₀ q

/-- A row that was returned for `k`, and accepted later. -/
def Accepted (q₀ : AuthState) (k : String) (row : ResolvedKey) (q : AuthState) : Prop :=
  Happened A (fun t a => Accepts A k row t a ∧ Returned A q₀ k row t) q₀ q

/-- A row that was returned for `k`, accepted later, and whose context was stored
    at the time `s`. -/
def StoredAt (q₀ : AuthState) (k : String) (row : ResolvedKey) (s : ℚ) (q : AuthState) : Prop :=
  Happened A (fun t a => Stores k row t a ∧ t.now = s ∧ Accepted A q₀ k row t) q₀ q

end

/-- What a call holds has a past. -/
def AuthCall.Traced (A : AuthSite) (q₀ q : AuthState) (c : AuthCall) : Prop :=
  match c.pc with
  | .evaluate (some row) => Returned A q₀ c.rawKey row q
  | .set (some context) => ∃ row, context = contextOf c.rawKey row ∧ Accepted A q₀ c.rawKey row q
  | .returned context =>
    ∃ row s, context = contextOf c.rawKey row ∧ StoredAt A q₀ c.rawKey row s q ∧ s ≤ c.time ∧
      (c.time = s ∨ c.time ≤ s + q₀.cache.ttl)
  | _ => True

/-- What the cache holds has a past. -/
def EntriesTraced (A : AuthSite) (q₀ q : AuthState) : Prop :=
  ∀ h expires context, q.cache.entry h = some (expires, some context) →
    ∃ k row s, A.hashApiKey k = h ∧ context = contextOf k row ∧ StoredAt A q₀ k row s q ∧ s ≤ q.now ∧
      expires = s + q₀.cache.ttl

section
variable {A : AuthSite} {q₀ q q' : AuthState} {a : AuthEvent} {c : AuthCall}

/-- The past stays. -/
theorem AuthCall.Traced.tail (h : c.Traced A q₀ q) (hs : q.step A a = some q') : c.Traced A q₀ q' := by
  unfold AuthCall.Traced at h ⊢
  split at h
  · exact Passed.tail h trivial hs
  · obtain ⟨row, rfl, h⟩ := h
    exact ⟨row, rfl, Passed.tail h trivial hs⟩
  · obtain ⟨row, s, rfl, h, hle⟩ := h
    exact ⟨row, s, rfl, Passed.tail h trivial hs, hle⟩
  · trivial

/-- A decision for a row is that of the row. -/
theorem decision_eq_some {k : String} {now : ℚ} {row : Option ResolvedKey} {context : AuthContext}
    (h : decision A k now row = some context) :
    ∃ r, row = some r ∧ context = contextOf k r ∧ r.revokedAt = none ∧
      ∀ e, r.expiresAt = some e → A.wall now < e := by
  cases row with
  | none => cases h
  | some r =>
    simp only [decision] at h
    split_ifs at h with hbad
    push Not at hbad
    refine ⟨r, rfl, (Option.some.inj h).symm, by simpa using hbad.1, ?_⟩
    intro e he
    simpa [expired, he] using hbad.2

/-- The past of an instant of now. -/
theorem happened_now {P : AuthState → AuthEvent → Prop} (hr : Reach (AuthState.step A) (fun _ _ => True) q₀ q)
    (hP : P q a) (hs : q.step A a = some q') : Happened A P q₀ q' :=
  ⟨q, a, q', hr, trivial, hP, hs, .refl⟩

/-! ## One step -/

/-- **A step of a call** holds only what has a past. -/
theorem traced_move {i : ℕ} {pc : AuthPc} {cache : KeyCache} (hinj : Function.Injective A.hashApiKey)
    (hr : Reach (AuthState.step A) (fun _ _ => True) q₀ q) (hs : q.step A (.step i) = some q')
    (hentries : EntriesTraced A q₀ q) (hc : q.calls[i]? = some c)
    (h : c.Traced A q₀ q) (hm : Moves A q c pc cache) :
    ({ c with pc, time := q.now } : AuthCall).Traced A q₀ q' := by
  cases hm with
  | miss | refuse | reject => trivial
  | @hit context hpc hget =>
    obtain ⟨expires, hentry, hle⟩ := Ttl.Cache.get_eq_some.1 hget
    obtain ⟨k, row, s, hk, rfl, hstored, hs', rfl⟩ := hentries _ _ _ hentry
    cases hinj hk
    exact ⟨row, s, rfl, hstored.tail trivial hs, hs', Or.inr hle⟩
  | lookup hpc =>
    cases hrow : (authResolveApiKey q.apiKeys (A.hashApiKey c.rawKey)).head? with
    | none => trivial
    | some row => exact happened_now hr ⟨i, c, rfl, hc, rfl, hpc, hrow⟩ hs
  | @evaluate row hpc =>
    cases hdecision : decision A c.rawKey q.now row with
    | none => trivial
    | some context =>
      obtain ⟨r, rfl, rfl, hrevoked, hexpires⟩ := decision_eq_some hdecision
      simp only [AuthCall.Traced, hpc] at h
      exact ⟨r, rfl, happened_now hr ⟨⟨i, c, rfl, hc, rfl, hpc, hrevoked, hexpires⟩, h⟩ hs⟩
  | @accept context hpc =>
    simp only [AuthCall.Traced, hpc] at h
    obtain ⟨row, rfl, haccepted⟩ := h
    exact ⟨row, q.now, rfl, happened_now hr ⟨⟨i, c, rfl, hc, rfl, hpc⟩, rfl, haccepted⟩ hs, le_rfl, Or.inl rfl⟩

/-- **An event** leaves entries with a past. -/
theorem entries_event (hr : Reach (AuthState.step A) (fun _ _ => True) q₀ q) (hs : q.step A a = some q')
    (hentries : EntriesTraced A q₀ q) (hcalls : ∀ c ∈ q.calls, c.Traced A q₀ q)
    (httl : q.cache.ttl = q₀.cache.ttl) : EntriesTraced A q₀ q' := by
  have hnow := (AuthState.stepped hs).now_le
  intro h expires context hentry
  rcases (AuthState.stepped hs).entry hentry with hentry | ⟨i, c, value, rfl, hc, hpc, rfl, he⟩
  · obtain ⟨k, row, s, hk, hcontext, hstored, hle, hexpires⟩ := hentries _ _ _ hentry
    exact ⟨k, row, s, hk, hcontext, hstored.tail trivial hs, hle.trans hnow, hexpires⟩
  · obtain ⟨rfl, rfl⟩ := Prod.mk.inj he
    have htraced := hcalls c (List.mem_of_getElem? hc)
    simp only [AuthCall.Traced, hpc] at htraced
    obtain ⟨row, rfl, haccepted⟩ := htraced
    exact ⟨c.rawKey, row, q.now, rfl, rfl,
      happened_now hr ⟨⟨i, c, rfl, hc, rfl, hpc⟩, rfl, haccepted⟩ hs, hnow, by rw [httl]⟩

/-! ## Whole runs -/

/-- What the cache is set up with, and its bound. -/
theorem keeps_run (h : Reach (AuthState.step A) (fun _ _ => True) q₀ q) : Keeps q₀.cache q.cache := by
  induction h with
  | refl => exact .refl _
  | tail _ _ hs ih =>
    have hkeeps := (AuthState.stepped hs).keeps
    refine ⟨hkeeps.ttl.trans ih.ttl, hkeeps.maxsize.trans ih.maxsize, fun hmax hsize => ?_⟩
    rw [← ih.maxsize]
    refine hkeeps.size ?_ ?_ <;> rw [ih.maxsize]
    · exact hmax
    · exact ih.size hmax hsize

/-- Everything that calls and cache hold has a past. -/
theorem traced_run (hinj : Function.Injective A.hashApiKey) (hstart : q₀.Started)
    (h : Reach (AuthState.step A) (fun _ _ => True) q₀ q) :
    (∀ c ∈ q.calls, c.Traced A q₀ q) ∧ EntriesTraced A q₀ q := by
  induction h with
  | refl =>
    refine ⟨fun c hc => ?_, fun h expires context hentry => ?_⟩
    · rw [hstart.calls] at hc
      cases hc
    · rw [Ttl.Cache.entry, hstart.cache, AList.lookup_empty] at hentry
      cases hentry
  | tail hr _ hs ih =>
    obtain ⟨hcalls, hentries⟩ := ih
    refine ⟨fun c hc => ?_, entries_event hr hs hentries hcalls (keeps_run hr).ttl⟩
    rcases (AuthState.stepped hs).mem_calls hc with
      hc | hpc | hpc | ⟨i, c, pc, cache, rfl, hmem, hat, hm, rfl⟩
    · exact (hcalls c hc).tail hs
    · simp only [AuthCall.Traced, hpc]
    · simp only [AuthCall.Traced, hpc]
    · exact traced_move hinj hr hs hentries hat (hcalls c hmem) hm

/-- **Provenance and bounded staleness.**  A context that is returned for a key is
    that of a row which the database returned for it, which was neither revoked nor
    expired when it was evaluated, and which was stored for this key then or at
    most the time to live before; the cache keeps its bound. -/
theorem context_provenance (hinj : Function.Injective A.hashApiKey) (hstart : q₀.Started)
    (hmax : 1 ≤ q₀.cache.maxsize) (h : Reach (AuthState.step A) (fun _ _ => True) q₀ q) :
    q.cache.size ≤ q₀.cache.maxsize ∧
      ∀ c ∈ q.calls, ∀ context, c.pc = .returned context →
        ∃ row s, context.tenantId = row.tenantId ∧ context.scopes = row.scopes ∧
          context = contextOf c.rawKey row ∧ StoredAt A q₀ c.rawKey row s q ∧ s ≤ c.time ∧
            (c.time = s ∨ c.time ≤ s + q₀.cache.ttl) := by
  have hempty : q₀.cache.size ≤ q₀.cache.maxsize := by
    rw [Ttl.Cache.size, hstart.cache]
    exact Nat.zero_le _
  refine ⟨(keeps_run h).size hmax hempty, fun c hc context hpc => ?_⟩
  have htraced := (traced_run hinj hstart h).1 c hc
  simp only [AuthCall.Traced, hpc] at htraced
  obtain ⟨row, s, rfl, hstored, hle, hstale⟩ := htraced
  exact ⟨row, s, rfl, rfl, rfl, hstored, hle, hstale⟩

end

namespace Sample

def authSite : AuthSite := { hashApiKey := id, epoch := 0 }

/-- A key that expires at 30. -/
def apiKey : ApiKey where
  tenantId := 1
  scopes := ["extract", "read"]
  expiresAt := some 30
  revokedAt := none
  keyHash := "ocr_abcdefghijkl"

def authState : AuthState := { now := 0, apiKeys := [apiKey], cache := { ttl := 60, maxsize := 1024 } }

/-- The same with a key that expires at 90. -/
def longAuthState : AuthState := { authState with apiKeys := [{ apiKey with expiresAt := some 90 }] }

/-- The key is resolved from the database. -/
def resolved : List AuthEvent := [.resolve apiKey.keyHash, .step 0, .step 0, .step 0, .step 0]

end Sample

/-- A context that the cache hands out ten seconds later. -/
theorem context_provenance_hit :
    ∃ q, Reach (AuthState.step Sample.authSite) (fun _ _ => True) Sample.authState q ∧
      ∃ c ∈ q.calls, ∃ context row s, c.pc = .returned context ∧ c.time = 10 ∧
        context = contextOf c.rawKey row ∧
          StoredAt Sample.authSite Sample.authState c.rawKey row s q ∧ s ≤ 10 := by
  have hrun : (exec (AuthState.step Sample.authSite) Sample.authState
      (Sample.resolved ++ [.tick 10, .resolve Sample.apiKey.keyHash, .step 1])).any (fun q =>
        q.calls.any fun c => c.time = 10 ∧
          c.pc = .returned (contextOf Sample.apiKey.keyHash Sample.apiKey.toResolvedKey)) = true := by
    decide +kernel
  obtain ⟨q, hq, hcall⟩ := (Option.any_eq_true _ _).1 hrun
  obtain ⟨c, hc, hfacts⟩ := List.any_eq_true.1 hcall
  obtain ⟨htime, hpc⟩ := of_decide_eq_true hfacts
  have hreach := reach_of_exec hq
  obtain ⟨-, hcontexts⟩ := context_provenance (fun _ _ h => h) ⟨rfl, rfl⟩ (by decide) hreach
  obtain ⟨row, s, -, -, hcontext, hstored, hle, -⟩ := hcontexts c hc _ hpc
  exact ⟨q, hreach, c, hc, _, row, s, hpc, htime, hcontext, hstored, htime ▸ hle⟩

/-! ## Expired keys -/

/-- The call holds what the database returned. -/
def AuthCall.answering (c : AuthCall) : Bool :=
  match c.pc with
  | .evaluate _ | .set _ => true
  | _ => false

/-- The call is about to store a context. -/
def AuthCall.accepting (c : AuthCall) : Bool :=
  match c.pc with
  | .set (some _) => true
  | _ => false

/-- A lookup, the test of its row and its return are one instant, and the keys stay
    as they are. -/
def AtOnce (q : AuthState) : AuthEvent → Prop
  | .step i => ∀ c ∈ q.calls[i]?, c.answering = true → c.time = q.now
  | .change _ => False
  | _ => True

instance (q : AuthState) : DecidablePred (AtOnce q)
  | .step i => inferInstanceAs (Decidable (∀ c ∈ q.calls[i]?, c.answering = true → c.time = q.now))
  | .change _ => inferInstanceAs (Decidable False)
  | .resolve _ | .fail _ | .tick _ | .clear | .evict _ => inferInstanceAs (Decidable True)

/-- A context of the key with hash `h`, which expires at `e`, is stored so early that
    the entry is not good any more when the key expires. -/
def StoredInTime (A : AuthSite) (h : String) (e : ℚ) (q : AuthState) : AuthEvent → Prop
  | .step i => ∀ c ∈ q.calls[i]?, A.hashApiKey c.rawKey = h → c.accepting = true →
      A.wall (q.now + q.cache.ttl) < e
  | _ => True

instance (A : AuthSite) (h : String) (e : ℚ) (q : AuthState) : DecidablePred (StoredInTime A h e q)
  | .step i => inferInstanceAs (Decidable (∀ c ∈ q.calls[i]?, A.hashApiKey c.rawKey = h →
      c.accepting = true → A.wall (q.now + q.cache.ttl) < e))
  | .change _ | .resolve _ | .fail _ | .tick _ | .clear | .evict _ => inferInstanceAs (Decidable True)

section
variable (A : AuthSite) (h : String) (row : ResolvedKey) (e : ℚ)

/-- What a call for the key has read and decided. -/
def AuthCall.Judged (c : AuthCall) : Prop :=
  match c.pc with
  | .evaluate row' => row' = some row
  | .set (some _) => A.wall c.time < e
  | _ => True

/-- The same for every call for the key. -/
structure AllJudged (q₀ q : AuthState) : Prop where
  apiKeys : q.apiKeys = q₀.apiKeys
  calls : ∀ c ∈ q.calls, A.hashApiKey c.rawKey = h → c.Judged A row e

/-- No context of the key was returned too late, and none will be from the cache. -/
structure InTime (q : AuthState) : Prop where
  returned : ∀ c ∈ q.calls, A.hashApiKey c.rawKey = h → ∀ context, c.pc = .returned context → A.wall c.time < e
  entry : ∀ expires context, q.cache.entry h = some (expires, some context) → A.wall expires < e

end

section
variable {A : AuthSite} {h : String} {row : ResolvedKey} {e : ℚ} {q₀ q q' : AuthState} {a : AuthEvent}

theorem accepting_iff {c : AuthCall} : c.accepting = true ↔ ∃ context, c.pc = .set (some context) := by
  unfold AuthCall.accepting
  constructor
  · intro haccepting
    split at haccepting
    · exact ⟨_, ‹_›⟩
    · cases haccepting
  · rintro ⟨context, hpc⟩
    rw [hpc]

theorem wall_lt_of_le {now now' : ℚ} (hle : now ≤ now') (hlt : A.wall now' < e) : A.wall now < e :=
  lt_of_le_of_lt (add_le_add_right hle A.epoch) hlt

/-- **One step** of calls that answer at once. -/
theorem judged_step (hrow : (authResolveApiKey q₀.apiKeys h).head? = some row) (he : row.expiresAt = some e)
    (hj : AllJudged A h row e q₀ q) (hok : AtOnce q a) (hs : q.step A a = some q') :
    AllJudged A h row e q₀ q' := by
  have hstep := AuthState.stepped hs
  constructor
  · cases hstep with
    | change => exact hok.elim
    | resolve | step | fail | tick | clear | evict => exact hj.apiKeys
  · intro c hc hh
    rcases hstep.mem_calls hc with hc | hpc | hpc | ⟨i, c, pc, cache, rfl, hmem, hat, hm, rfl⟩
    · exact hj.calls c hc hh
    · simp only [AuthCall.Judged, hpc]
    · simp only [AuthCall.Judged, hpc]
    · have hc' := hj.calls c hmem hh
      replace hh : A.hashApiKey c.rawKey = h := hh
      cases hm with
      | miss | hit | refuse | reject | accept => trivial
      | lookup hpc =>
        show (authResolveApiKey q.apiKeys (A.hashApiKey c.rawKey)).head? = some row
        rw [hj.apiKeys, hh, hrow]
      | evaluate hpc =>
        simp only [AuthCall.Judged, hpc] at hc'
        subst hc'
        cases hdecision : decision A c.rawKey q.now (some row) with
        | none => trivial
        | some context =>
          obtain ⟨r, hr, -, -, hexpires⟩ := decision_eq_some hdecision
          cases hr
          exact hexpires e he

/-- **One step** that stores in time. -/
theorem inTime_step (hj : AllJudged A h row e q₀ q) (ht : InTime A h e q) (hok : AtOnce q a)
    (hstored : StoredInTime A h e q a) (hs : q.step A a = some q') : InTime A h e q' := by
  have hstep := AuthState.stepped hs
  constructor
  · intro c hc hh context hreturned
    rcases hstep.mem_calls hc with hc | hpc | hpc | ⟨i, c, pc, cache, rfl, hmem, hat, hm, rfl⟩
    · exact ht.returned c hc hh context hreturned
    · cases hpc.symm.trans hreturned
    · cases hpc.symm.trans hreturned
    · replace hh : A.hashApiKey c.rawKey = h := hh
      replace hreturned : pc = .returned context := hreturned
      subst hreturned
      show A.wall q.now < e
      cases hm with
      | hit hpc hget =>
        obtain ⟨expires, hentry, hle⟩ := Ttl.Cache.get_eq_some.1 hget
        rw [hh] at hentry
        exact wall_lt_of_le hle (ht.entry expires context hentry)
      | accept hpc =>
        have hc' := hj.calls c hmem hh
        simp only [AuthCall.Judged, hpc] at hc'
        rw [← hok c hat (by simp only [AuthCall.answering, hpc])]
        exact hc'
  · intro expires context hentry
    rcases hstep.entry hentry with hentry | ⟨i, c, value, rfl, hc, hpc, hh, hvalue⟩
    · exact ht.entry expires context hentry
    · obtain ⟨rfl, rfl⟩ := Prod.mk.inj hvalue
      exact hstored c hc hh.symm (accepting_iff.2 ⟨context, hpc⟩)

/-- In every run of calls that answer at once. -/
theorem judged_run (hrow : (authResolveApiKey q₀.apiKeys h).head? = some row) (he : row.expiresAt = some e)
    (hstart : q₀.Started) (hr : Reach (AuthState.step A) AtOnce q₀ q) : AllJudged A h row e q₀ q := by
  refine hr.invariant (I := AllJudged A h row e q₀) ⟨rfl, fun c hc => ?_⟩ ?_
  · rw [hstart.calls] at hc
    cases hc
  · intro q a q' hj hok hs
    exact judged_step hrow he hj hok hs

/-- A call that finds a good entry. -/
theorem hit_step {i : ℕ} {c : AuthCall} {context : AuthContext} (hc : q.calls[i]? = some c) (hpc : c.pc = .get)
    (hget : (q.cache.get q.now (A.hashApiKey c.rawKey)).1 = some (some context)) :
    q.step A (.step i) = some { q.goto i c (.returned context) with
      cache := (q.cache.get q.now (A.hashApiKey c.rawKey)).2 } := by
  have hmove : c.move A q = some (.returned context, (q.cache.get q.now (A.hashApiKey c.rawKey)).2) := by
    simp only [AuthCall.move, hpc]
    split <;> rename_i hpair <;> rw [hpair] at hget ⊢ <;> cases hget
    rfl
  simp only [AuthState.step, hc, hmove, Option.map_some]

/-- **A context that is stored late is handed out late**: the clock advances to the
    expiry of the key, and the next call finds the entry. -/
theorem late_hit {i : ℕ} {c : AuthCall} {context : AuthContext} (hj : AllJudged A h row e q₀ q)
    (hok : AtOnce q (.step i)) (hs : q.step A (.step i) = some q') (hc : q.calls[i]? = some c)
    (hh : A.hashApiKey c.rawKey = h) (hpc : c.pc = .set (some context))
    (hlate : e ≤ A.wall (q.now + q.cache.ttl)) :
    ∃ q'', Reach (AuthState.step A) AtOnce q' q'' ∧ ∃ c' ∈ q''.calls, A.hashApiKey c'.rawKey = h ∧
      (∃ context, c'.pc = .returned context) ∧ e ≤ A.wall c'.time := by
  -- the key has not expired yet
  have hbefore : A.wall q.now < e := by
    have hc' := hj.calls c (List.mem_of_getElem? hc) hh
    simp only [AuthCall.Judged, hpc] at hc'
    rw [← hok c hc (by simp only [AuthCall.answering, hpc])]
    exact hc'
  have hq' : q' = { q.goto i c (.returned context) with
      cache := q.cache.set q.now (A.hashApiKey c.rawKey) (some context) } := by
    simp only [AuthState.step, hc, AuthCall.move, hpc, Option.map_some, Option.some.injEq] at hs
    exact hs.symm
  have hentry : q'.cache.entry h = some (q.now + q.cache.ttl, some context) := by
    rw [hq', ← hh]
    exact Ttl.Cache.entry_set_self
  have hnow : q'.now = q.now := by rw [hq']; rfl
  -- a call begins now and takes its step when the key expires
  let d : ℚ := e - A.wall q.now
  let called : AuthState := { q' with calls := q'.calls ++ [{ rawKey := c.rawKey, time := q'.now }] }
  let later : AuthState := { called with now := called.now + d }
  have hd : 0 ≤ d := (sub_pos.2 hbefore).le
  have hlater : A.wall later.now = e := by
    show A.epoch + (q'.now + (e - (A.epoch + q.now))) = e
    rw [hnow]
    ring
  have hcall : later.calls[q'.calls.length]? = some { rawKey := c.rawKey, time := q'.now } :=
    List.getElem?_concat_length
  have hget : (later.cache.get later.now (A.hashApiKey c.rawKey)).1 = some (some context) := by
    refine Ttl.Cache.get_eq_some.2 ⟨q.now + q.cache.ttl, hh ▸ hentry, ?_⟩
    rw [← hlater] at hlate
    exact le_of_add_le_add_left hlate
  have hend := hit_step hcall rfl hget
  have hbegin : called.step A (.tick d) = some later := if_pos hd
  have hreach : Reach (AuthState.step A) AtOnce q' later :=
    (Reach.refl.tail (a := .resolve c.rawKey) trivial rfl).tail (a := .tick d) trivial hbegin
  refine ⟨_, hreach.tail ?_ hend, { rawKey := c.rawKey, pc := .returned context, time := later.now }, ?_, hh,
    ⟨context, rfl⟩, hlater.ge⟩
  · intro c' hc' hanswering
    rw [hcall] at hc'
    cases hc'
    cases hanswering
  · refine List.mem_of_getElem? (i := q'.calls.length) ?_
    exact List.getElem?_set_self (List.getElem?_eq_some_iff.1 hcall).1

/-- **An expired key is rejected** in every run whose contexts are stored in time;
    from any store that is not in time, a run goes on to return the context of a key
    that has expired. -/
theorem expired_key_rejected (hstart : q₀.Started)
    (hrow : (authResolveApiKey q₀.apiKeys h).head? = some row) (he : row.expiresAt = some e) :
    (∀ q, Reach (AuthState.step A) (fun t a => AtOnce t a ∧ StoredInTime A h e t a) q₀ q →
      ∀ c ∈ q.calls, A.hashApiKey c.rawKey = h → ∀ context, c.pc = .returned context → A.wall c.time < e) ∧
    ∀ q a q', Reach (AuthState.step A) AtOnce q₀ q → AtOnce q a → q.step A a = some q' →
      ¬ StoredInTime A h e q a →
        ∃ q'', Reach (AuthState.step A) AtOnce q' q'' ∧ ∃ c ∈ q''.calls, A.hashApiKey c.rawKey = h ∧
          (∃ context, c.pc = .returned context) ∧ e ≤ A.wall c.time := by
  constructor
  · intro q hr
    have hrun : AllJudged A h row e q₀ q ∧ InTime A h e q := by
      refine hr.invariant (I := fun q => AllJudged A h row e q₀ q ∧ InTime A h e q) ?_ ?_
      · refine ⟨judged_run hrow he hstart .refl, fun c hc => ?_, fun expires context hentry => ?_⟩
        · rw [hstart.calls] at hc
          cases hc
        · rw [Ttl.Cache.entry, hstart.cache, AList.lookup_empty] at hentry
          cases hentry
      · rintro q a q' ⟨hj, ht⟩ ⟨hok, hstored⟩ hs
        exact ⟨judged_step hrow he hj hok hs, inTime_step hj ht hok hstored hs⟩
    exact hrun.2.returned
  · intro q a q' hr hok hs hstored
    obtain ⟨i, rfl⟩ : ∃ i, a = .step i := by
      cases a with
      | step i => exact ⟨i, rfl⟩
      | _ => exact absurd trivial hstored
    simp only [StoredInTime, not_forall, not_lt] at hstored
    obtain ⟨c, hc, hh, haccepting, hlate⟩ := hstored
    obtain ⟨context, hpc⟩ := accepting_iff.1 haccepting
    exact late_hit (judged_run hrow he hstart hr) hok hs hc hh hpc hlate

end

/-- A key that expires at 90 is stored at 0, and the cache hands it out at 50. -/
theorem expired_key_rejected_hit :
    ∃ q, Reach (AuthState.step Sample.authSite)
        (fun t a => AtOnce t a ∧ StoredInTime Sample.authSite Sample.apiKey.keyHash 90 t a)
        Sample.longAuthState q ∧
      ∃ c ∈ q.calls, (∃ context, c.pc = .returned context) ∧ c.time = 50 ∧ Sample.authSite.wall c.time < 90 := by
  have hrun : (exec (checked (AuthState.step Sample.authSite)
      (fun t a => AtOnce t a ∧ StoredInTime Sample.authSite Sample.apiKey.keyHash 90 t a)) Sample.longAuthState
      (Sample.resolved ++ [.tick 50, .resolve Sample.apiKey.keyHash, .step 1])).any (fun q =>
        q.calls.any fun c => c.rawKey = Sample.apiKey.keyHash ∧ c.time = 50 ∧
          c.pc = .returned (contextOf Sample.apiKey.keyHash Sample.apiKey.toResolvedKey)) = true := by
    decide +kernel
  obtain ⟨q, hreach, hcall⟩ := exists_of_checked (fun _ _ => id) hrun
  obtain ⟨c, hc, hfacts⟩ := List.any_eq_true.1 hcall
  obtain ⟨hh, htime, hpc⟩ := of_decide_eq_true hfacts
  obtain ⟨hsafe, -⟩ := expired_key_rejected (A := Sample.authSite)
    (h := Sample.apiKey.keyHash) (e := 90) (show Sample.longAuthState.Started from ⟨rfl, rfl⟩) rfl rfl
  exact ⟨q, hreach, c, hc, ⟨_, hpc⟩, htime, hsafe q hreach c hc hh _ hpc⟩

/-- The key expires at 30: what is stored at 0 is good until 60. -/
theorem expired_key_returned :
    ∃ q, Reach (AuthState.step Sample.authSite) AtOnce Sample.authState q ∧
      (authResolveApiKey Sample.authState.apiKeys Sample.apiKey.keyHash).head? =
        some Sample.apiKey.toResolvedKey ∧
      Sample.apiKey.expiresAt = some 30 ∧
      ∃ c ∈ q.calls, Sample.authSite.hashApiKey c.rawKey = Sample.apiKey.keyHash ∧
        (∃ context, c.pc = .returned context) ∧ 30 ≤ Sample.authSite.wall c.time := by
  have hrun : (exec (checked (AuthState.step Sample.authSite) AtOnce) Sample.authState
      (Sample.resolved ++ [.tick 45, .resolve Sample.apiKey.keyHash, .step 1])).any (fun q =>
        q.calls.any fun c => Sample.authSite.hashApiKey c.rawKey = Sample.apiKey.keyHash ∧
          c.pc = .returned (contextOf Sample.apiKey.keyHash Sample.apiKey.toResolvedKey) ∧
            30 ≤ Sample.authSite.wall c.time) = true := by
    decide +kernel
  obtain ⟨q, hreach, hcall⟩ := exists_of_checked (fun _ _ => id) hrun
  obtain ⟨c, hc, hfacts⟩ := List.any_eq_true.1 hcall
  obtain ⟨hh, hpc, hlate⟩ := of_decide_eq_true hfacts
  exact ⟨q, hreach, rfl, rfl, c, hc, hh, ⟨_, hpc⟩, hlate⟩

end OcrService
