import RexlibCuda.AllocatorRuns
import RexlibCuda.ReleaseOrder

/-! `deferred_release` by itself, over any blocks and tokens: what `process` and
`wait_all` give back, with which token, and what is left where a query or a
wait fails part way. Of commands no more is known than that they stay
finished. -/

namespace RexlibCuda

open Prog Sequence

open Relation (ReflTransGen)

/-! ## What has finished -/

/-- Commands stay finished, and a query or a wait that tells of one is right. -/
structure Permanent (finished : Nat → Command → Prop) (env : Environment) : Prop where
  stays : ∀ {m n : Nat} {c : Command}, m ≤ n → finished m c → finished n c
  isComplete : ∀ n c, env.isComplete n c = some true → finished n c
  wait : ∀ n c, env.wait n c = true → finished (n + 1) c

theorem Permanent.always (env : Environment) : Permanent (fun _ _ => True) env :=
  ⟨fun _ _ => trivial, fun _ _ _ => trivial, fun _ _ _ => trivial⟩

/-- The token is empty, or its command has finished. -/
def Idle (finished : Nat → Command → Prop) (n : Nat) (t : CommandToken) : Prop :=
  ∀ c ∈ t, finished n c

/-- What an event that changes nothing is about. -/
def Event.Asks : Event → Prop
  | .isComplete _ _ => True
  | .wait _ _ => True
  | .hostAllocate _ => True
  | _ => False

/-- The blocks that were given to the pool, latest first. -/
def released : List Event → List BlockId
  | [] => []
  | .released b :: trace => b :: released trace
  | _ :: trace => released trace

theorem released_append (es trace : List Event) :
    released (es ++ trace) = released es ++ released trace := by
  induction es with
  | nil => rfl
  | cons e es ih => cases e <;> simp [released, ih]

theorem released_eq_nil {es : List Event} (h : ∀ e ∈ es, ∀ b, e ≠ .released b) :
    released es = [] := by
  induction es with
  | nil => rfl
  | cons e es ih =>
      have htail := ih fun e he => h e (List.mem_cons_of_mem _ he)
      cases e with
      | released b => exact absurd rfl (h _ List.mem_cons_self b)
      | _ => exact htail

theorem released_events (blocks : List (BlockId × CommandToken)) :
    released (blocks.map fun x => Event.released x.1).reverse
      = (blocks.map Prod.fst).reverse := by
  induction blocks with
  | nil => rfl
  | cons x blocks ih => simp [released_append, ih, released]

theorem Event.Asks.ne_released {e : Event} (h : e.Asks) (b : BlockId) : e ≠ .released b := by
  rintro rfl
  exact h

namespace MemoryBlockAllocator

variable {cfg : Config} {env : Environment} {finished : Nat → Command → Prop}
  {s t u a : MemoryBlockAllocator} {b : BlockId} {es : List Event}

/-! ## Dropping what has finished -/

/-- The outside was asked, and nothing else happened. -/
structure Looks (s t : MemoryBlockAllocator) (es : List Event) : Prop where
  asks : ∀ e ∈ es, e.Asks
  state : t = { s with trace := es ++ s.trace }

theorem Looks.refl (s : MemoryBlockAllocator) : Looks s s [] := ⟨by simp, rfl⟩

theorem Looks.log (s : MemoryBlockAllocator) {e : Event} (he : e.Asks) : Looks s (s.log e) [e] :=
  ⟨by simpa using he, rfl⟩

theorem Looks.trans {es' : List Event} (h : Looks s t es) (h' : Looks t u es') :
    Looks s u (es' ++ es) := by
  obtain ⟨hasks, rfl⟩ := h
  obtain ⟨hasks', rfl⟩ := h'
  refine ⟨fun e he => ?_, by simp⟩
  exact (List.mem_append.mp he).elim (hasks' e) (hasks e)

/-- Time has passed. -/
theorem Looks.now_le (h : Looks s t es) : s.now ≤ t.now := by
  obtain ⟨-, rfl⟩ := h
  simp [now]

theorem Looks.deferred (h : Looks s t es) : t.deferred = s.deferred := by
  rw [h.state]

theorem hostAllocate_looks : wp (hostAllocate env) (fun _ t => ∃ es, Looks s t es)
    (fun _ t => Looks s t [.hostAllocate false]) s := by
  simp only [hostAllocate, wp_bind, wp_ask]
  cases env.hostAllocate s.now with
  | true => exact ⟨_, .log s trivial⟩
  | false => exact .log s trivial

/-- A query of the token failed last. -/
def QueryFailed (token : CommandToken) (es : List Event) : Prop :=
  ∃ c, token = some c ∧ es.head? = some (.isComplete c none)

theorem QueryFailed.earlier {token : CommandToken} (h : QueryFailed token es)
    (es' : List Event) : QueryFailed token (es ++ es') := by
  obtain ⟨c, rfl, hhead⟩ := h
  refine ⟨c, rfl, ?_⟩
  rw [List.head?_append, hhead]
  rfl

/-- The token was answered not to have finished. -/
def Unfinished (es : List Event) (token : CommandToken) : Prop :=
  ∃ c, token = some c ∧ .isComplete c (some false) ∈ es

theorem Unfinished.later {token : CommandToken} (h : Unfinished es token) (es' : List Event) :
    Unfinished (es' ++ es) token := by
  obtain ⟨c, rfl, hc⟩ := h
  exact ⟨c, rfl, List.mem_append_right es' hc⟩

theorem Unfinished.earlier {token : CommandToken} (h : Unfinished es token) (es' : List Event) :
    Unfinished (es ++ es') token := by
  obtain ⟨c, rfl, hc⟩ := h
  exact ⟨c, rfl, List.mem_append_left es' hc⟩

theorem Idle.later {m n : Nat} {token : CommandToken} (hf : Permanent finished env)
    (h : Idle finished m token) (hmn : m ≤ n) : Idle finished n token :=
  fun c hc => hf.stays hmn (h c hc)

theorem isComplete_looks (hf : Permanent finished env) (token : CommandToken) :
    wp (isComplete env token)
      (fun complete t => ∃ es, Looks s t es ∧
        if complete then Idle finished t.now token else Unfinished es token)
      (fun _ t => ∃ es, Looks s t es ∧ QueryFailed token es) s := by
  cases token with
  | none => exact ⟨[], .refl s, by simp [Idle]⟩
  | some c =>
      simp only [isComplete, wp_bind, wp_ask]
      cases hanswer : env.isComplete s.now c with
      | none => exact ⟨_, .log s trivial, c, rfl, rfl⟩
      | some complete =>
          have hlooks : Looks s (s.log (.isComplete c (some complete))) _ := .log s trivial
          refine ⟨_, hlooks, ?_⟩
          cases complete with
          | true =>
              intro d hd
              obtain rfl : c = d := Option.some.inj hd
              exact hf.stays hlooks.now_le (hf.isComplete _ _ hanswer)
          | false => exact ⟨c, rfl, List.mem_cons_self⟩

theorem queryAll_looks (hf : Permanent finished env) (tokens : List CommandToken)
    (s : MemoryBlockAllocator) :
    wp (queryAll env tokens)
      (fun complete t => ∃ es, Looks s t es ∧ List.Forall₂ (fun token answer =>
        if answer then Idle finished t.now token else Unfinished es token) tokens complete)
      (fun _ t => ∃ es, Looks s t es ∧ ∃ token ∈ tokens, QueryFailed token es) s := by
  induction tokens generalizing s with
  | nil => exact ⟨[], .refl s, .nil⟩
  | cons token tokens ih =>
      simp only [queryAll, wp_bind]
      refine wp_mono (isComplete_looks hf token) ?_ ?_
      · intro complete t h
        obtain ⟨es, hst, hanswer⟩ := h
        refine wp_mono (ih t) ?_ ?_
        · intro answers u h
          obtain ⟨es', htu, hanswers⟩ := h
          refine ⟨es' ++ es, hst.trans htu, .cons ?_ (hanswers.imp fun token answer h => ?_)⟩
          · cases complete with
            | true => exact Idle.later hf hanswer htu.now_le
            | false => exact Unfinished.later hanswer es'
          · cases answer with
            | true => exact h
            | false => exact Unfinished.earlier h es
        · intro e u h
          obtain ⟨es', htu, failed, hmem, hfailed⟩ := h
          exact ⟨es' ++ es, hst.trans htu, failed, List.mem_cons_of_mem token hmem,
            hfailed.earlier es⟩
      · intro e t h
        obtain ⟨es, hst, hfailed⟩ := h
        exact ⟨es, hst, token, List.mem_cons_self, hfailed⟩

/-- A query of one of the tokens failed last, or there was no room for the
answers. -/
def DropFailed (tokens : List CommandToken) (es : List Event) : Prop :=
  (∃ token ∈ tokens, QueryFailed token es) ∨ es.head? = some (.hostAllocate false)

theorem DropFailed.earlier {tokens : List CommandToken} (h : DropFailed tokens es)
    (es' : List Event) : DropFailed tokens (es ++ es') := by
  rcases h with ⟨token, hmem, hfailed⟩ | hhead
  · exact .inl ⟨token, hmem, hfailed.earlier es'⟩
  · refine .inr ?_
    rw [List.head?_append, hhead]
    rfl

/-- `drop_complete_tokens` drops tokens that have finished, and keeps what was
answered not to have. -/
theorem dropCompleteTokens_looks (hf : Permanent finished env) (tokens : List CommandToken)
    (s : MemoryBlockAllocator) :
    wp (dropCompleteTokens cfg env tokens)
      (fun left t => ∃ es, Looks s t es ∧ Drops (Idle finished t.now) tokens left ∧
        ∀ token ∈ left, Unfinished es token)
      (fun _ t => ∃ es, Looks s t es ∧ DropFailed tokens es) s := by
  have hflags : wp (completionFlags cfg env tokens.length) (fun _ t => ∃ es, Looks s t es)
      (fun _ t => Looks s t [.hostAllocate false]) s := by
    unfold completionFlags
    split
    · exact hostAllocate_looks
    · exact ⟨[], .refl s⟩
  simp only [dropCompleteTokens, wp_bind]
  refine wp_mono hflags ?_ ?_
  · intro _ t h
    obtain ⟨es, hst⟩ := h
    refine wp_mono (queryAll_looks hf tokens t) ?_ ?_
    · intro complete u h
      obtain ⟨es', htu, hanswers⟩ := h
      obtain ⟨-, -, -, hleft⟩ := compact_spec hanswers.length_eq.symm tokens.length (Nat.le_refl _)
      obtain ⟨hdrops, hunfinished⟩ := Drops.of_answers hanswers
      refine ⟨es' ++ es, hst.trans htu, ?_, ?_⟩
      · rw [hleft, List.take_of_length_le (by simp)]
        exact hdrops
      · rw [hleft, List.take_of_length_le (by simp)]
        exact fun token htoken => (hunfinished token htoken).earlier es
    · intro e u h
      obtain ⟨es', htu, hfailed⟩ := h
      have hfailed : DropFailed tokens es' := .inl hfailed
      exact ⟨es' ++ es, hst.trans htu, hfailed.earlier es⟩
  · intro e t hst
    exact ⟨_, hst, .inr rfl⟩

/-- `defer` puts the block behind those that are held, or does nothing. -/
theorem defer_spec (b : BlockId) (tokens : List CommandToken) (s : MemoryBlockAllocator) :
    wp (defer env b tokens)
      (fun _ a => ∃ es, (∀ e ∈ es, e.Asks) ∧
        a = { s with deferred := s.deferred ++ [(b, tokens)], trace := es ++ s.trace })
      (fun _ a => ∃ es, Looks s a es) s := by
  unfold defer
  split
  · exact ⟨[], .refl s⟩
  · simp only [wp_bind, wp_modify]
    refine wp_mono hostAllocate_looks ?_ fun _ _ h => ⟨_, h⟩
    intro _ t h
    obtain ⟨es, hst⟩ := h
    refine wp_mono hostAllocate_looks ?_ fun _ _ h => ⟨_, hst.trans h⟩
    intro _ u h
    obtain ⟨es', htu⟩ := h
    obtain ⟨hasks, rfl⟩ := hst.trans htu
    exact ⟨_, hasks, rfl⟩

/-! ## `process` -/

/-- What `left` says of an entry that was looked at: it has lost tokens that
had finished at moment `n`, and none that was answered to have not. -/
structure Left (finished : Nat → Command → Prop) (n : Nat) (es : List Event)
    (item left : PendingRelease) : Prop where
  block : left.1 = item.1
  drops : Drops (Idle finished n) item.2 left.2
  unfinished : ∀ token ∈ left.2, Unfinished es token

/-- The entries of `front`, which stand behind those of `done`, have been looked
at, and nothing else has changed. -/
structure LookedAt (finished : Nat → Command → Prop) (done : List PendingRelease)
    (s u : MemoryBlockAllocator) (es : List Event) (front lefts behind : List PendingRelease) :
    Prop where
  asks : ∀ e ∈ es, e.Asks
  state : u = { s with deferred := done ++ lefts ++ behind, trace := es ++ s.trace }
  left : List.Forall₂ (Left finished u.now es) front lefts

/-- One more entry in front. -/
theorem LookedAt.cons {es' : List Event} {done front lefts behind items : List PendingRelease}
    {tokens left : List CommandToken} (hf : Permanent finished env) (hst : Looks s t es)
    (hdrops : Drops (Idle finished t.now) tokens left)
    (hunfinished : ∀ token ∈ left, Unfinished es token)
    (h : LookedAt finished (done ++ [(b, left)]) { t with deferred := done ++ (b, left) :: items } u
      es' front lefts behind) :
    LookedAt finished done s u (es' ++ es) ((b, tokens) :: front) ((b, left) :: lefts) behind := by
  obtain ⟨hasks, rfl⟩ := hst
  obtain ⟨hasks', rfl, hleft⟩ := h
  refine ⟨fun e he => (List.mem_append.mp he).elim (hasks' e) (hasks e), by simp, ?_⟩
  have hle : MemoryBlockAllocator.now { s with trace := es ++ s.trace }
      ≤ now ⟨s.pool, done ++ [(b, left)] ++ lefts ++ behind, es' ++ (es ++ s.trace)⟩ := by
    simp [now]
  refine .cons ⟨rfl, hdrops.mono fun _ ht => Idle.later hf ht hle, ?_⟩ ?_
  · exact fun token htoken => (hunfinished token htoken).later es'
  · exact hleft.imp fun item left h =>
      ⟨h.block, h.drops, fun token htoken => (h.unfinished token htoken).earlier es⟩

/-- The first loop of `process`, and where it stops when it throws. -/
theorem dropLoop_spec (hf : Permanent finished env) (items : List PendingRelease) :
    ∀ (done : List PendingRelease) (s : MemoryBlockAllocator), s.deferred = done ++ items →
      wp (dropLoop cfg env done items)
        (fun _ u => ∃ es lefts, LookedAt finished done s u es items lefts [])
        (fun _ u => ∃ es front item behind lefts, items = front ++ item :: behind ∧
          LookedAt finished done s u es front lefts (item :: behind) ∧ DropFailed item.2 es) s := by
  induction items with
  | nil =>
      intro done s hs
      refine ⟨[], [], by simp, ?_, .nil⟩
      rw [List.append_nil, ← hs]
      rfl
  | cons item items ih =>
      intro done s hs
      obtain ⟨b, tokens⟩ := item
      simp only [dropLoop, wp_bind, wp_modify]
      refine wp_mono (dropCompleteTokens_looks hf tokens s) ?_ ?_
      · intro left t h
        obtain ⟨es, hst, hdrops, hunfinished⟩ := h
        refine wp_mono (ih (done ++ [(b, left)]) _ (by simp)) ?_ ?_
        · intro _ u h
          obtain ⟨es', lefts, hlooked⟩ := h
          exact ⟨es' ++ es, (b, left) :: lefts, hlooked.cons hf hst hdrops hunfinished⟩
        · intro e u h
          obtain ⟨es', front, item, behind, lefts, rfl, hlooked, hfailed⟩ := h
          refine ⟨es' ++ es, (b, tokens) :: front, item, behind, (b, left) :: lefts, rfl,
            hlooked.cons hf hst hdrops hunfinished, ?_⟩
          exact hfailed.earlier es
      · intro e t h
        obtain ⟨es, hst, hfailed⟩ := h
        refine ⟨es, [], (b, tokens), items, [], rfl, ⟨hst.asks, ?_, .nil⟩, hfailed⟩
        rw [hst.state, List.append_nil, ← hs]

/-- The entries that are ready to go back, each with the token it goes back
with. -/
def ready (items : List PendingRelease) : Returns :=
  (items.filter fun item => item.2.length < 2).map fun item => (item.1, item.2.headD none)

/-- The entries that are not. -/
def waiting (items : List PendingRelease) : List PendingRelease :=
  items.filter fun item => 2 ≤ item.2.length

theorem ready_cons {tokens : List CommandToken} (h : tokens.length < 2) (b : BlockId)
    (items : List PendingRelease) :
    ready ((b, tokens) :: items) = (b, tokens.headD none) :: ready items ∧
      waiting ((b, tokens) :: items) = waiting items := by
  have hnot : ¬ 2 ≤ tokens.length := Nat.not_le.mpr h
  constructor
  · rw [ready, List.filter_cons_of_pos (by simpa using h)]
    rfl
  · rw [waiting, List.filter_cons_of_neg (by simpa using hnot)]
    rfl

theorem waiting_cons {tokens : List CommandToken} (h : ¬ tokens.length < 2) (b : BlockId)
    (items : List PendingRelease) :
    ready ((b, tokens) :: items) = ready items ∧
      waiting ((b, tokens) :: items) = (b, tokens) :: waiting items := by
  have hle : 2 ≤ tokens.length := Nat.not_lt.mp h
  constructor
  · rw [ready, List.filter_cons_of_neg (by simpa using h)]
    rfl
  · rw [waiting, List.filter_cons_of_pos (by simpa using hle)]
    rfl

/-- `memory_block_pool::release` on one after the other. -/
def releaseAll (s : MemoryBlockAllocator) (blocks : Returns) : MemoryBlockAllocator :=
  blocks.foldl (fun s x => s.release x.1 x.2) s

/-- What giving several blocks to the pool is. -/
theorem releaseAll_eq (s : MemoryBlockAllocator) (blocks : Returns) :
    s.releaseAll blocks = { s with
      pool := s.pool.releaseAll blocks
      trace := (blocks.map fun x => Event.released x.1).reverse ++ s.trace } := by
  induction blocks generalizing s with
  | nil => rfl
  | cons x blocks ih =>
      show (s.release x.1 x.2).releaseAll blocks = _
      rw [ih]
      simp [release, log, MemoryBlockPool.releaseAll]

/-- **What the `std::remove_if` does**: what is ready is given back in the order
of the list, and the rest stays in its order. -/
theorem removeReady_eq (items : List PendingRelease) (s : MemoryBlockAllocator) :
    removeReady items s = (waiting items, s.releaseAll (ready items)) := by
  induction items generalizing s with
  | nil => rfl
  | cons item items ih =>
      obtain ⟨b, tokens⟩ := item
      simp only [removeReady]
      by_cases hlen : tokens.length < 2
      · obtain ⟨hready, hwaiting⟩ := ready_cons hlen b items
        rw [if_pos hlen, ih, hready, hwaiting]
        rfl
      · obtain ⟨hready, hwaiting⟩ := waiting_cons hlen b items
        rw [if_neg hlen, ih, hready, hwaiting]

/-- **A `process` that returned**: `lefts` are the entries once all have been
looked at. -/
structure Processed (finished : Nat → Command → Prop) (s a : MemoryBlockAllocator)
    (queries : List Event) (lefts : List PendingRelease) : Prop where
  asks : ∀ e ∈ queries, e.Asks
  left : List.Forall₂ (Left finished (queries ++ s.trace).length queries) s.deferred lefts
  state : a = ⟨s.pool.releaseAll (ready lefts), waiting lefts,
    ((ready lefts).map fun x => Event.released x.1).reverse ++ (queries ++ s.trace)⟩

/-- **A `process` that threw**: the entries of `front` have been looked at, and
the one behind them was when it failed. -/
structure ProcessFailed (finished : Nat → Command → Prop) (s a : MemoryBlockAllocator)
    (queries : List Event) (front : List PendingRelease) (item : PendingRelease)
    (behind lefts : List PendingRelease) : Prop where
  asks : ∀ e ∈ queries, e.Asks
  split : s.deferred = front ++ item :: behind
  failed : DropFailed item.2 queries
  left : List.Forall₂ (Left finished (queries ++ s.trace).length queries) front lefts
  state : a = { s with deferred := lefts ++ item :: behind, trace := queries ++ s.trace }

theorem process_spec (hf : Permanent finished env) :
    wp (process cfg env) (fun _ a => ∃ queries lefts, Processed finished s a queries lefts)
      (fun _ a => ∃ queries front item behind lefts,
        ProcessFailed finished s a queries front item behind lefts) s := by
  simp only [process, wp_bind, wp_get, wp_modify]
  refine wp_mono (dropLoop_spec hf s.deferred [] s rfl) ?_ ?_
  · intro _ u h
    obtain ⟨queries, lefts, hasks, rfl, hleft⟩ := h
    refine ⟨queries, lefts, hasks, hleft, ?_⟩
    simp [removeReady_eq, releaseAll_eq]
  · intro e u h
    obtain ⟨queries, front, item, behind, lefts, hsplit, ⟨hasks, rfl, hleft⟩, hfailed⟩ := h
    exact ⟨queries, front, item, behind, lefts, hasks, hsplit, hfailed, hleft, rfl⟩

/-! ## `wait_all` -/

/-- A wait for one of the tokens failed last. -/
def WaitFailed (tokens : List CommandToken) (es : List Event) : Prop :=
  ∃ c, some c ∈ tokens ∧ es.head? = some (.wait c false)

theorem WaitFailed.earlier {tokens : List CommandToken} (h : WaitFailed tokens es)
    (es' : List Event) : WaitFailed tokens (es ++ es') := by
  obtain ⟨c, hc, hhead⟩ := h
  refine ⟨c, hc, ?_⟩
  rw [List.head?_append, hhead]
  rfl

theorem wait_looks (hf : Permanent finished env) (token : CommandToken) :
    wp (wait env token) (fun _ t => ∃ es, Looks s t es ∧ Idle finished t.now token)
      (fun _ t => ∃ es, Looks s t es ∧ WaitFailed [token] es) s := by
  cases token with
  | none => exact ⟨[], .refl s, by simp [Idle]⟩
  | some c =>
      simp only [wait, wp_bind, wp_ask]
      cases hwait : env.wait s.now c with
      | true =>
          refine ⟨_, .log s trivial, ?_⟩
          intro d hd
          obtain rfl : c = d := Option.some.inj hd
          exact hf.wait _ _ hwait
      | false => exact ⟨_, .log s trivial, c, List.mem_cons_self, rfl⟩

theorem waitEach_looks (hf : Permanent finished env) (tokens : List CommandToken)
    (s : MemoryBlockAllocator) :
    wp (forEach (wait env) tokens)
      (fun _ t => ∃ es, Looks s t es ∧ ∀ token ∈ tokens, Idle finished t.now token)
      (fun _ t => ∃ es, Looks s t es ∧ WaitFailed tokens es) s := by
  induction tokens generalizing s with
  | nil => exact ⟨[], .refl s, by simp⟩
  | cons token tokens ih =>
      simp only [forEach, wp_bind]
      refine wp_mono (wait_looks hf token) ?_ ?_
      · intro _ t h
        obtain ⟨es, hst, hidle⟩ := h
        refine wp_mono (ih t) ?_ ?_
        · intro _ u h
          obtain ⟨es', htu, hidles⟩ := h
          refine ⟨es' ++ es, hst.trans htu, fun x hx => ?_⟩
          rcases List.mem_cons.mp hx with rfl | hx
          · exact Idle.later hf hidle htu.now_le
          · exact hidles x hx
        · intro e u h
          obtain ⟨es', htu, c, hc, hhead⟩ := h
          have hfailed : WaitFailed (token :: tokens) es' := ⟨c, List.mem_cons_of_mem token hc, hhead⟩
          exact ⟨es' ++ es, hst.trans htu, hfailed.earlier es⟩
      · intro e t h
        obtain ⟨es, hst, c, hc, hhead⟩ := h
        refine ⟨es, hst, c, ?_, hhead⟩
        rw [List.mem_singleton.mp hc]
        exact List.mem_cons_self

/-- **What `wait_all` has done**: the entries of `front` have gone back with
empty tokens, each when its commands had finished, and those of `behind` are
held as they were. -/
structure Waited (finished : Nat → Command → Prop) (s a : MemoryBlockAllocator)
    (es : List Event) (front behind : List PendingRelease) : Prop where
  events : ∀ e ∈ es, e.Asks ∨ ∃ b, e = .released b
  released : released es = (front.map Prod.fst).reverse
  state : a = ⟨s.pool.releaseAll (front.map fun item => (item.1, none)), behind, es ++ s.trace⟩
  idle : ∀ item ∈ front, ∃ later earlier, es = later ++ .released item.1 :: earlier ∧
    ∀ token ∈ item.2, Idle finished (earlier ++ s.trace).length token

theorem Waited.cons {es' : List Event} {front behind items : List PendingRelease}
    {tokens : List CommandToken} (hst : Looks s t es)
    (hidle : ∀ token ∈ tokens, Idle finished t.now token)
    (h : Waited finished { t.release b none with deferred := items } a es' front behind) :
    Waited finished s a (es' ++ .released b :: es) ((b, tokens) :: front) behind := by
  obtain ⟨hasks, rfl⟩ := hst
  obtain ⟨hevents, hreleased, rfl, hidles⟩ := h
  constructor
  · intro e he
    rcases List.mem_append.mp he with he | he
    · exact hevents e he
    · rcases List.mem_cons.mp he with rfl | he
      · exact .inr ⟨b, rfl⟩
      · exact .inl (hasks e he)
  · rw [released_append, hreleased]
    simp [RexlibCuda.released, released_eq_nil fun e he => (hasks e he).ne_released]
  · simp [release, log, MemoryBlockPool.releaseAll]
  · intro item hitem
    rcases List.mem_cons.mp hitem with rfl | hitem
    · exact ⟨es', es, rfl, hidle⟩
    · obtain ⟨later, earlier, rfl, hidle⟩ := hidles item hitem
      refine ⟨later, earlier ++ .released b :: es, by simp, ?_⟩
      simpa [release, log] using hidle

theorem waitAll_spec (hf : Permanent finished env) :
    wp (waitAll env) (fun _ a => ∃ es, Waited finished s a es s.deferred [])
      (fun _ a => ∃ es front item behind, s.deferred = front ++ item :: behind ∧
        Waited finished s a es front (item :: behind) ∧ WaitFailed item.2 es) s := by
  simp only [waitAll, wp_bind, wp_get]
  generalize hitems : s.deferred = items
  induction items generalizing s with
  | nil =>
      obtain ⟨pool, deferred, trace⟩ := s
      cases hitems
      exact ⟨[], by simp, rfl, rfl, by simp⟩
  | cons item items ih =>
      obtain ⟨b, tokens⟩ := item
      simp only [forEach, wp_bind, wp_modify]
      refine wp_mono (waitEach_looks hf tokens s) ?_ ?_
      · intro _ t h
        obtain ⟨es, hst, hidle⟩ := h
        have htail : t.deferred.tail = items := by rw [hst.deferred, hitems, List.tail_cons]
        rw [htail]
        refine wp_mono (ih (s := { t.release b none with deferred := items }) rfl) ?_ ?_
        · intro _ u h
          obtain ⟨es', hwaited⟩ := h
          exact ⟨_, hwaited.cons hst hidle⟩
        · intro e u h
          obtain ⟨es', front, item, behind, rfl, hwaited, hfailed⟩ := h
          exact ⟨_, (b, tokens) :: front, item, behind, rfl, hwaited.cons hst hidle,
            hfailed.earlier _⟩
      · intro e t h
        obtain ⟨es, ⟨hasks, rfl⟩, hfailed⟩ := h
        refine ⟨es, [], (b, tokens), items, rfl, ⟨fun e he => .inl (hasks e he), ?_, ?_, by simp⟩,
          hfailed⟩
        · exact released_eq_nil fun e he => (hasks e he).ne_released
        · rw [← hitems]
          rfl

end MemoryBlockAllocator

/-! ## Runs -/

/-- A `deferred_release` and what it was asked to hold back. -/
structure Drain where
  alloc : MemoryBlockAllocator
  /-- The blocks that are held back, in the order of the list, each with the
  tokens it was deferred with. -/
  entries : List PendingRelease
  /-- All that has ever been deferred. -/
  taken : List PendingRelease

namespace Drain

open MemoryBlockAllocator

variable {cfg : Config} {env : Environment} {finished : Nat → Command → Prop}
  {d d' : Drain} {a u : MemoryBlockAllocator} {n : Nat}

/-- Nothing has been deferred yet. The blocks are of some pool. -/
def start (pool : MemoryBlockPool) : Drain := ⟨⟨pool, [], []⟩, [], []⟩

/-- Of the entries, those whose block `process` holds on to. -/
def heldOn (lefts entries : List PendingRelease) : List PendingRelease :=
  ((lefts.zip entries).filter fun x => 2 ≤ x.1.2.length).map Prod.snd

/-- **A step**: a call of one of the three functions, whether it returns or
throws, or something that is not about what is held back. -/
inductive Step (cfg : Config) (env : Environment) : Drain → Drain → Prop
  | deferred {d : Drain} {b : BlockId} {tokens : List CommandToken} {a : MemoryBlockAllocator}
      (returned : defer env b tokens d.alloc = (.ok (), a)) :
      Step cfg env d ⟨a, d.entries ++ [(b, tokens)], d.taken ++ [(b, tokens)]⟩
  | refused {d : Drain} {b : BlockId} {tokens : List CommandToken} {e : Exn}
      {a : MemoryBlockAllocator} (thrown : defer env b tokens d.alloc = (.error e, a)) :
      Step cfg env d { d with alloc := a }
  /-- `u` is what the first loop of `process` left. -/
  | processed {d : Drain} {u a : MemoryBlockAllocator}
      (looked : dropLoop cfg env [] d.alloc.deferred d.alloc = (.ok (), u))
      (returned : process cfg env d.alloc = (.ok (), a)) :
      Step cfg env d ⟨a, heldOn u.deferred d.entries, d.taken⟩
  | processFailed {d : Drain} {e : Exn} {a : MemoryBlockAllocator}
      (thrown : process cfg env d.alloc = (.error e, a)) : Step cfg env d { d with alloc := a }
  | waited {d : Drain} {result : Except Exn Unit} {a : MemoryBlockAllocator}
      (ended : waitAll env d.alloc = (result, a)) :
      Step cfg env d
        ⟨a, d.entries.drop (d.alloc.deferred.length - a.deferred.length), d.taken⟩
  /-- The pool is used for other blocks, and time passes. -/
  | elsewhere {d : Drain} (pool : MemoryBlockPool) (es : List Event)
      (quiet : ∀ e ∈ es, ∀ b, e ≠ .released b) :
      Step cfg env d { d with alloc := ⟨pool, d.alloc.deferred, es ++ d.alloc.trace⟩ }

/-- What is held of an entry: it has lost only tokens that have finished. -/
structure Reduced (finished : Nat → Command → Prop) (n : Nat) (entry item : PendingRelease) :
    Prop where
  block : item.1 = entry.1
  drops : Drops (Idle finished n) entry.2 item.2

/-- **What holds of every run**: each block that was deferred has been given
back once or is still held, with what is left of its tokens. -/
structure Held (finished : Nat → Command → Prop) (d : Drain) : Prop where
  entries : List.Forall₂ (Reduced finished d.alloc.now) d.entries d.alloc.deferred
  deferred : d.entries.Sublist d.taken
  once : (d.taken.map Prod.fst).Perm (released d.alloc.trace ++ d.alloc.deferred.map Prod.fst)

theorem Reduced.later {m : Nat} {entry item : PendingRelease} (hf : Permanent finished env)
    (h : Reduced finished m entry item) (hmn : m ≤ n) : Reduced finished n entry item :=
  ⟨h.block, h.drops.mono fun _ ht => Idle.later hf ht hmn⟩

theorem Reduced.left {es : List Event} {entry item left : PendingRelease}
    (h : Reduced finished n entry item) (h' : Left finished n es item left) :
    Reduced finished n entry left :=
  ⟨h'.block.trans h.block, h.drops.trans h'.drops⟩

theorem Held.start (pool : MemoryBlockPool) : Held finished (start pool) :=
  ⟨.nil, .slnil, .nil⟩

/-- **What a step has to keep**: what is given back and what is still held are
together what was held before. -/
theorem Held.moves (h : Held finished d) {es : List Event} {entries : List PendingRelease}
    (htrace : a.trace = es ++ d.alloc.trace) (hsub : entries.Sublist d.entries)
    (hentries : List.Forall₂ (Reduced finished a.now) entries a.deferred)
    (honce : (released es ++ a.deferred.map Prod.fst).Perm (d.alloc.deferred.map Prod.fst)) :
    Held finished ⟨a, entries, d.taken⟩ := by
  refine ⟨hentries, hsub.trans h.deferred, ?_⟩
  have hback : (released a.trace ++ a.deferred.map Prod.fst).Perm
      (released d.alloc.trace ++ (released es ++ a.deferred.map Prod.fst)) := by
    rw [htrace, released_append, ← List.append_assoc]
    exact List.perm_append_comm.append_right _
  exact h.once.trans ((honce.symm.append_left _).trans hback.symm)

/-- The blocks are those of the entries, in their order. -/
theorem blocks_eq {entries items : List PendingRelease}
    (h : List.Forall₂ (Reduced finished n) entries items) :
    items.map Prod.fst = entries.map Prod.fst := by
  induction h with
  | nil => rfl
  | cons h _ ih => rw [List.map_cons, List.map_cons, ih, h.block]

/-- Asking and looking give nothing back. -/
theorem Held.looked (hf : Permanent finished env) (h : Held finished d) {es : List Event}
    (htrace : a.trace = es ++ d.alloc.trace) (hes : released es = [])
    (hleft : List.Forall₂ (Reduced finished a.now) d.alloc.deferred a.deferred) :
    Held finished { d with alloc := a } := by
  have hnow : d.alloc.now ≤ a.now := by simp [now, htrace]
  apply h.moves htrace (.refl _)
  · refine forall₂_trans (fun entry item left h h' => ?_) h.entries hleft
    exact ⟨h'.block.trans h.block, (h.later hf hnow).drops.trans h'.drops⟩
  · rw [hes, List.nil_append, blocks_eq hleft]

theorem reduced_refl (items : List PendingRelease) :
    List.Forall₂ (Reduced finished n) items items :=
  List.forall₂_same.mpr fun _ _ => ⟨rfl, .refl _⟩

/-- What `process` gives back and what it holds on to. -/
theorem ready_waiting {entries lefts : List PendingRelease}
    (h : List.Forall₂ (Reduced finished n) entries lefts) :
    List.Forall₂ (Reduced finished n) (heldOn lefts entries) (waiting lefts) ∧
      (heldOn lefts entries).Sublist entries ∧
      ((ready lefts).map Prod.fst ++ (waiting lefts).map Prod.fst).Perm (lefts.map Prod.fst) := by
  induction h with
  | nil => exact ⟨.nil, .slnil, .nil⟩
  | @cons entry left entries lefts h _ ih =>
      obtain ⟨hheld, hsub, hperm⟩ := ih
      by_cases hlen : 2 ≤ left.2.length
      · have hlen' : ¬ left.2.length < 2 := by omega
        simp only [heldOn, waiting, ready, List.zip_cons_cons, List.filter_cons, hlen, hlen',
          decide_true, decide_false, if_true, List.map_cons]
        refine ⟨.cons h hheld, hsub.cons_cons entry, ?_⟩
        exact List.perm_middle.trans (hperm.cons _)
      · have hlen' : left.2.length < 2 := by omega
        simp only [heldOn, waiting, ready, List.zip_cons_cons, List.filter_cons, hlen, hlen',
          decide_true, decide_false, if_true, List.map_cons]
        exact ⟨hheld, hsub.cons entry, hperm.cons _⟩

theorem Held.looks (hf : Permanent finished env) (h : Held finished d) {es : List Event}
    (hlooks : Looks d.alloc a es) : Held finished { d with alloc := a } := by
  obtain ⟨hasks, rfl⟩ := hlooks
  exact h.looked hf rfl (released_eq_nil fun e he => (hasks e he).ne_released) (reduced_refl _)

theorem reduced_of_left {es : List Event} {items lefts : List PendingRelease}
    (h : List.Forall₂ (Left finished n es) items lefts) :
    List.Forall₂ (Reduced finished n) items lefts := h.imp fun _ _ h => ⟨h.block, h.drops⟩

theorem unfinished_of_left {es : List Event} {items lefts : List PendingRelease}
    (h : List.Forall₂ (Left finished n es) items lefts) :
    ∀ item ∈ lefts, ∀ token ∈ item.2, Unfinished es token := by
  induction h with
  | nil => simp
  | cons h _ ih =>
      intro item hitem
      rcases List.mem_cons.mp hitem with rfl | hitem
      · exact h.unfinished
      · exact ih item hitem

/-- The second loop of `process` starts from what the first has left. -/
theorem process_looked {s : MemoryBlockAllocator}
    (hlooked : dropLoop cfg env [] s.deferred s = (.ok (), u)) :
    process cfg env s = (.ok (), ⟨u.pool.releaseAll (ready u.deferred), waiting u.deferred,
      ((ready u.deferred).map fun x => Event.released x.1).reverse ++ u.trace⟩) := by
  have hprocess : wp (process cfg env) (fun _ a => a =
      ⟨u.pool.releaseAll (ready u.deferred), waiting u.deferred,
        ((ready u.deferred).map fun x => Event.released x.1).reverse ++ u.trace⟩)
      (fun _ _ => False) s := by
    simp only [process, wp_bind, wp_get, wp_modify]
    apply wp_of_returned hlooked
    simp [removeReady_eq, releaseAll_eq]
  cases hrun : process cfg env s with
  | mk result a =>
      cases result with
      | ok => rw [wp_returned hprocess hrun]
      | error e => exact (wp_thrown hprocess hrun).elim

theorem Held.waited (hf : Permanent finished env) (h : Held finished d) {es : List Event}
    {front behind : List PendingRelease} (hwaited : Waited finished d.alloc a es front behind)
    (hsplit : d.alloc.deferred = front ++ behind) :
    Held finished
      ⟨a, d.entries.drop (d.alloc.deferred.length - a.deferred.length), d.taken⟩ := by
  obtain ⟨-, hreleased, rfl, -⟩ := hwaited
  have hdrop : d.alloc.deferred.length - behind.length = front.length := by
    rw [hsplit, List.length_append]
    omega
  have hentries := List.forall₂_drop front.length h.entries
  rw [hsplit, List.drop_left] at hentries
  simp only [hdrop]
  apply h.moves rfl (List.drop_sublist _ _)
  · exact hentries.imp fun _ _ h => h.later hf (by simp [now])
  · rw [hreleased, hsplit, List.map_append]
    exact (List.reverse_perm _).append_right _

/-- **One step** keeps it. -/
theorem Held.step (hf : Permanent finished env) (h : Held finished d) (hstep : Step cfg env d d') :
    Held finished d' := by
  cases hstep with
  | @deferred b tokens a returned =>
      obtain ⟨es, hasks, rfl⟩ := wp_returned (defer_spec b tokens d.alloc) returned
      have hlooked := h.looks (a := { d.alloc with trace := es ++ d.alloc.trace }) hf
        ⟨hasks, rfl⟩
      have honce := hlooked.once
      refine ⟨?_, hlooked.deferred.append_right _, ?_⟩
      · exact List.rel_append hlooked.entries (.cons ⟨rfl, .refl _⟩ .nil)
      · rw [List.map_append, List.map_append, ← List.append_assoc]
        exact honce.append_right _
  | @refused b tokens e a thrown =>
      obtain ⟨es, hlooks⟩ := wp_thrown (defer_spec b tokens d.alloc) thrown
      exact h.looks hf hlooks
  | @processed u a looked returned =>
      obtain ⟨es, lefts, hasks, rfl, hleft⟩ :=
        wp_returned (dropLoop_spec hf d.alloc.deferred [] d.alloc rfl) looked
      rw [process_looked looked] at returned
      cases returned
      have hlooked := h.looked
        (a := { d.alloc with deferred := [] ++ lefts ++ [], trace := es ++ d.alloc.trace }) hf rfl
        (released_eq_nil fun e he => (hasks e he).ne_released)
        (by simpa using reduced_of_left hleft)
      obtain ⟨hheld, hsub, hperm⟩ := ready_waiting hlooked.entries
      apply hlooked.moves rfl hsub
      · exact hheld.imp fun _ _ h => h.later hf (by simp [now])
      · rw [released_events]
        exact ((List.reverse_perm _).append_right _).trans hperm
  | @processFailed e a thrown =>
      obtain ⟨es, front, item, behind, lefts, hasks, hsplit, -, hleft, rfl⟩ :=
        wp_thrown (process_spec hf) thrown
      apply h.looked hf rfl (released_eq_nil fun e he => (hasks e he).ne_released)
      rw [hsplit]
      exact List.rel_append (reduced_of_left hleft) (reduced_refl _)
  | @waited result a ended =>
      cases result with
      | ok =>
          obtain ⟨es, hwaited⟩ := wp_returned (waitAll_spec hf) ended
          exact h.waited hf hwaited (List.append_nil _).symm
      | error e =>
          obtain ⟨es, front, item, behind, hsplit, hwaited, -⟩ :=
            wp_thrown (waitAll_spec hf) ended
          exact h.waited hf hwaited hsplit
  | elsewhere pool es quiet =>
      exact h.looked hf rfl (released_eq_nil quiet) (reduced_refl _)

theorem Held.run (hf : Permanent finished env) {pool : MemoryBlockPool}
    (hrun : ReflTransGen (Step cfg env) (Drain.start pool) d) : Held finished d := by
  induction hrun with
  | refl => exact .start pool
  | tail _ hstep ih => exact ih.step hf hstep

/-! ## What a run comes to -/

/-- **A block goes back with `token`** while at most one of the commands it was
deferred with is running, and with the token of that one. -/
structure Safe (finished : Nat → Command → Prop) (n : Nat) (entry : PendingRelease)
    (token : CommandToken) : Prop where
  atMostOne : ∀ c c', some c ∈ entry.2 → some c' ∈ entry.2 → ¬ finished n c → ¬ finished n c' →
    c = c'
  carried : token = none ∨ token ∈ entry.2
  unfinished : ∀ c, some c ∈ entry.2 → ¬ finished n c → token = some c

theorem Reduced.safe {entry left : PendingRelease} (h : Reduced finished n entry left)
    (hlen : left.2.length < 2) : Safe finished n entry (left.2.headD none) := by
  obtain ⟨b, tokens⟩ := left
  have hleft : ∀ c, some c ∈ entry.2 → ¬ finished n c → some c ∈ tokens := by
    intro c hc hnot
    exact (h.drops.mem hc).resolve_right fun hidle => hnot (hidle c rfl)
  match tokens, hlen with
  | [], _ =>
      refine ⟨fun c _ hc _ hnot _ => ?_, .inl rfl, fun c hc hnot => ?_⟩
      · cases hleft c hc hnot
      · cases hleft c hc hnot
  | [token], _ =>
      have hone : ∀ c, some c ∈ entry.2 → ¬ finished n c → token = some c := fun c hc hnot =>
        (List.mem_singleton.mp (hleft c hc hnot)).symm
      refine ⟨fun c c' hc hc' hnot hnot' => ?_, .inr ?_, hone⟩
      · exact Option.some.inj ((hone c hc hnot).symm.trans (hone c' hc' hnot'))
      · exact h.drops.sublist.subset List.mem_cons_self

/-- **A `process` that returned**: `lefts` is what was left of the entries when
the last query had been answered. Those with at most one token left have been
given to the pool one by one, and the others are held. -/
structure GivesBack (finished : Nat → Command → Prop) (d : Drain) (a : MemoryBlockAllocator)
    (queries : List Event) (lefts : List PendingRelease) : Prop where
  asks : ∀ e ∈ queries, e.Asks
  state : a = ⟨d.alloc.pool.releaseAll (ready lefts), waiting lefts,
    ((ready lefts).map fun x => Event.released x.1).reverse ++ (queries ++ d.alloc.trace)⟩
  reduced : List.Forall₂ (Reduced finished (queries ++ d.alloc.trace).length) d.entries lefts
  safe : List.Forall₂ (fun entry left => left.2.length < 2 →
    Safe finished (queries ++ d.alloc.trace).length entry (left.2.headD none)) d.entries lefts
  unfinished : ∀ item ∈ a.deferred, 2 ≤ item.2.length ∧
    ∀ token ∈ item.2, Unfinished queries token

/-- **Held-back blocks come back once and only when safe.** -/
structure Lawful (cfg : Config) (env : Environment) (finished : Nat → Command → Prop)
    (d : Drain) : Prop where
  once : (d.taken.map Prod.fst).Perm (released d.alloc.trace ++ d.alloc.deferred.map Prod.fst)
  processed : ∀ {a}, process cfg env d.alloc = (.ok (), a) →
    ∃ queries lefts, GivesBack finished d a queries lefts
  processFailed : ∀ {e a}, process cfg env d.alloc = (.error e, a) →
    ∃ queries front item behind lefts,
      ProcessFailed finished d.alloc a queries front item behind lefts
  waited : ∀ {a}, waitAll env d.alloc = (.ok (), a) →
    ∃ es, Waited finished d.alloc a es d.alloc.deferred []
  waitFailed : ∀ {e a}, waitAll env d.alloc = (.error e, a) →
    ∃ es front item behind, d.alloc.deferred = front ++ item :: behind ∧
      Waited finished d.alloc a es front (item :: behind) ∧ WaitFailed item.2 es

/-- What is held back all the way from the start is looked at as a whole. -/
theorem Held.givesBack (hf : Permanent finished env) (h : Held finished d) {queries : List Event}
    {lefts : List PendingRelease} (hp : Processed finished d.alloc a queries lefts) :
    GivesBack finished d a queries lefts := by
  obtain ⟨hasks, hleft, rfl⟩ := hp
  have hnow : d.alloc.now ≤ (queries ++ d.alloc.trace).length := by simp [now]
  have hreduced : List.Forall₂ (Reduced finished (queries ++ d.alloc.trace).length)
      d.entries lefts :=
    forall₂_trans (fun _ _ _ h h' => (h.later hf hnow).left h') h.entries hleft
  refine ⟨hasks, rfl, hreduced, hreduced.imp fun _ _ h => h.safe, fun item hitem => ?_⟩
  obtain ⟨hmem, hlen⟩ := List.mem_filter.mp hitem
  exact ⟨of_decide_eq_true hlen, unfinished_of_left hleft item hmem⟩

/-- **Every run of `defer`, `process` and `wait_all` is lawful**, whatever the
blocks and the tokens are and wherever queries and waits throw. -/
theorem lawful_run (hf : Permanent finished env) {pool : MemoryBlockPool}
    (hrun : ReflTransGen (Step cfg env) (Drain.start pool) d) : Lawful cfg env finished d := by
  have h := Held.run hf hrun
  constructor
  · exact h.once
  · intro a returned
    obtain ⟨queries, lefts, hp⟩ := wp_returned (process_spec hf) returned
    exact ⟨queries, lefts, h.givesBack hf hp⟩
  · intro e a thrown
    exact wp_thrown (process_spec hf) thrown
  · intro a returned
    exact wp_returned (waitAll_spec hf) returned
  · intro e a thrown
    exact wp_thrown (waitAll_spec hf) thrown

theorem ticking_permanent : Permanent ticking.finished tickingEnvironment where
  stays := ticking.stays
  isComplete := ticking_truthful.isComplete
  wait := ticking_truthful.wait

/-- Of these two commands one will have finished when they are looked at. -/
def twoCommands : List CommandToken :=
  [some ⟨⟨1, Int.one_ne_zero⟩, 2⟩, some ⟨⟨2, by decide⟩, 9⟩]

/-- A block that both of them use is held back. -/
def inUse : Drain where
  alloc := (defer tickingEnvironment 5 twoCommands ⟨.empty, [], []⟩).2
  entries := [(5, twoCommands)]
  taken := [(5, twoCommands)]

theorem inUse_lawful : Lawful .default tickingEnvironment ticking.finished inUse := by
  have hstep : Step .default tickingEnvironment (Drain.start .empty) inUse :=
    .deferred (d := Drain.start .empty) (b := 5) rfl
  exact lawful_run ticking_permanent (.single hstep)

end Drain

end RexlibCuda
