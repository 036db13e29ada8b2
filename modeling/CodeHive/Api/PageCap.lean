import CodeHive.Api.MemoryPages

/-! # The size of a page

`Math.min(limit || 50, 200)` is a bound from above, and a negative limit passes it. A negative index
counts from the end: `slice` and `LRANGE` take it so, and the page is then as long as the queue
leaves room for. And the sum of a limit and an offset that is no integer may be rounded up to one, so
that a slice in memory has one element more. -/

namespace CodeHive.Api.PageCap

set_option autoImplicit false

open CodeHive.Js.Value CodeHive.Js.Indices CodeHive.Api.Types CodeHive.Api.Stores
open CodeHive.Api.Messages CodeHive.Api.Program CodeHive.Api.Queue CodeHive.Api.System
open CodeHive.Api.History CodeHive.Api.Invariant CodeHive.Api.Logic CodeHive.Api.Runs
open CodeHive.Api.Alone CodeHive.Api.Listing CodeHive.Api.Paging CodeHive.Numbers.Doubles
open CodeHive.Concurrency.Calls CodeHive.Concurrency.Pool CodeHive.Concurrency.Solo

/-- The index that a finite argument stands for. -/
def indexOf : Number → Option ℤ
  | .fin q => some (trunc q)
  | _ => none

/-- The sum may be rounded up to an integer. -/
example : indexOf ((Number.fin (1 - 1 / 2 ^ 53)).add (.fin 200)) = some 201 := by decide +kernel

/-- A page of more than 200 out of `len` ids. In memory the slice starts at an index from the front,
and stops at one from the end or at one that is more than 200 further. On Redis the range starts at
an index from the front and stops at one from the end, and so does the slice that cuts it. -/
def LeavesMany (b : Backend) (len : ℕ) (limit offset : Number) : Prop :=
  match b with
  | .memory => ∃ start stop, indexOf offset = some start ∧
      indexOf (offset.add limit) = some stop ∧ 0 ≤ start ∧
      ((stop < 0 ∧ 200 < len + stop - start) ∨ (200 < stop - start ∧ 200 < len - start))
  | .redis => ∃ first last cut, Redis.index? offset = some first ∧
      Redis.index? ((offset.add limit).sub (.fin 1)) = some last ∧ indexOf limit = some cut ∧
      0 ≤ first ∧ last < 0 ∧ cut < 0 ∧ 200 < len + last - first + 1 + cut

/-- **A page that is too long**, for the values of a query. -/
def Overflows (b : Backend) (len : ℕ) (limit offset : Number) : Prop :=
  LeavesMany b len ((limit.or (.fin 50)).min (.fin 200)) (offset.or (.fin 0))

/-- **The answer to a request for a page** has at most 200 jobs, consecutive ones of the listing, if
it is not an error. -/
def Capped (b : Backend) (env : Op → Input) (s : Store) (limit offset : Number) : Prop :=
  ∃ reply, ask b env (.executions limit offset) s = some (.reply reply) ∧
    ∀ items total, reply.body = .executions items total →
      items.length ≤ 200 ∧ items <:+: (listing b s).filterMap (lookup b s)

theorem isInfix_range (xs : List String) (m k : ℤ) : Redis.range xs m k <:+: xs :=
  (List.take_prefix _ _).isInfix.trans (List.drop_suffix _ _).isInfix

/-! ### The limit -/

/-- The limit has a bound from above. -/
theorem limit_cases (limit : Number) : (limit.or (.fin 50)).min (.fin 200) = .negInf ∨
    ∃ p, p ≤ 200 ∧ (limit.or (.fin 50)).min (.fin 200) = .fin p := by
  cases limit with
  | nan => exact Or.inr ⟨50, by norm_num, by decide +kernel⟩
  | negInf => exact Or.inl rfl
  | posInf => exact Or.inr ⟨200, le_refl _, rfl⟩
  | fin p =>
    by_cases hp : p = 0
    · subst hp
      exact Or.inr ⟨50, by norm_num, by decide +kernel⟩
    · by_cases hle : p ≤ 200
      · exact Or.inr ⟨p, hle, by simp [Number.or, Number.min, hp, hle]⟩
      · exact Or.inr ⟨200, le_refl _, by simp [Number.or, Number.min, hp, hle]⟩

/-! ### How long the pages are -/

/-- An infinite end, or an offset that is infinite, leaves nothing. -/
theorem slice_infinite (len : ℕ) (offset limit : Number) (hlimit : limit ≠ .posInf)
    (h : ∀ q p, offset = .fin q → limit ≠ .fin p) :
    (offset.add limit).clampIndex len - offset.clampIndex len = 0 := by
  cases offset with
  | nan => rfl
  | negInf =>
    refine Nat.sub_eq_zero_of_le ?_
    cases limit with
    | posInf => exact absurd rfl hlimit
    | _ => exact Nat.zero_le _
  | posInf => exact Nat.sub_eq_zero_of_le (clampIndex_le _ _)
  | fin q =>
    cases limit with
    | nan => exact Nat.zero_sub _
    | negInf => exact Nat.zero_sub _
    | posInf => exact absurd rfl hlimit
    | fin p => exact absurd rfl (h q p rfl)

theorem indexOf_infinite {offset limit : Number} (h : ∀ q p, offset = .fin q → limit ≠ .fin p) :
    indexOf offset = none ∨ indexOf (offset.add limit) = none := by
  cases offset with
  | fin q =>
    cases limit with
    | fin p => exact absurd rfl (h q p rfl)
    | _ => exact Or.inr rfl
  | _ => exact Or.inl rfl

/-- A sum that is rounded beyond all doubles: nothing of a list is left from there on. -/
theorem ofRat_infinite {x : ℚ} (h : ∀ t, Number.ofRat x ≠ .fin t) :
    (Number.ofRat x = .posInf ∧ 2 ^ 1024 ≤ nearest x) ∨ Number.ofRat x = .negInf := by
  unfold Number.ofRat at h ⊢
  split_ifs at h ⊢ with hfin hpos
  · exact absurd rfl (h _)
  · rw [abs_of_nonneg (nearest_nonneg hpos.le), not_lt] at hfin
    exact Or.inl ⟨rfl, by exact_mod_cast hfin⟩
  · exact Or.inr rfl

/-- From an index that counts from the end, the slice ends no more than 200 further. -/
theorem trunc_nearest_le {p q : Finite} (hp : p ≤ 200) (hq : trunc q < 0) :
    trunc (nearest (q + p)) ≤ max (trunc q) (-2 ^ 53) + 200 := by
  have hneg : q ≤ 0 := by
    rcases le_or_gt q 0 with h | h
    · exact h
    · rw [trunc_of_nonneg h.le] at hq
      exact absurd (Int.floor_nonneg.mpr h.le) (not_le.mpr hq)
  have hceil : q ≤ trunc q := by
    rw [trunc_of_nonpos hneg]
    exact Int.le_ceil q
  have hmax : (trunc q : ℚ) ≤ (max (trunc q) (-2 ^ 53) : ℤ) := by exact_mod_cast le_max_left _ _
  have hdouble : IsDouble ((max (trunc q) (-2 ^ 53) + 200 : ℤ) : ℚ) :=
    isDouble_intCast (abs_le.mpr ⟨by omega, by omega⟩)
  have hle := nearest_le (x := q + p) hdouble (by push_cast at hmax ⊢; linarith)
  exact (trunc_mono hle).trans (trunc_intCast _).le

/-- Where the sum is beyond all doubles, the slice starts beyond the list already. -/
theorem clampIndex_of_overflow {len : ℕ} (hlen : len < 2 ^ 32) {p q : Finite} (hp : p ≤ 200)
    (h : 2 ^ 1024 ≤ nearest (q + p)) : (Number.fin q).clampIndex len = len := by
  have hq : (2 ^ 32 : ℚ) ≤ q := by
    by_contra hlt
    have hdouble : IsDouble (2 ^ 33) := isDouble_two_pow 33
    have hle := nearest_le (x := q + p) hdouble (by linarith)
    have hpow : (2 : ℚ) ^ 33 < 2 ^ 1024 := pow_lt_pow_right₀ (by norm_num) (by norm_num)
    exact absurd (h.trans hle) (not_le.mpr hpow)
  have hfloor : 2 ^ 32 ≤ ⌊q⌋₊ := Nat.le_floor (by exact_mod_cast hq)
  rw [clampIndex_floor len (by linarith)]
  omega

/-- **In memory** the length of a slice is the distance of its indices, also after they are
rounded. -/
theorem memory_length {len : ℕ} (hlen : len < 2 ^ 32) {limit : Number} (offset : Number)
    (hlimit : limit = .negInf ∨ ∃ p, p ≤ 200 ∧ limit = .fin p) :
    (offset.add limit).clampIndex len - offset.clampIndex len ≤ 200 ↔
      ¬ LeavesMany .memory len limit offset := by
  by_cases hfin : ∃ q p, offset = .fin q ∧ limit = .fin p
  · obtain ⟨q, p, rfl, rfl⟩ := hfin
    have hp : p ≤ 200 := by simpa using hlimit
    by_cases hsum : ∃ t, (Number.fin q).add (.fin p) = .fin t
    · obtain ⟨t, hsum⟩ := hsum
      obtain ⟨rfl, -⟩ := Number.ofRat_eq_fin.mp hsum
      have hmany : LeavesMany .memory len (.fin p) (.fin q) ↔ 0 ≤ trunc q ∧
          ((trunc (nearest (q + p)) < 0 ∧ 200 < len + trunc (nearest (q + p)) - trunc q) ∨
            (200 < trunc (nearest (q + p)) - trunc q ∧ 200 < len - trunc q)) := by
        rw [LeavesMany, hsum]
        simp [indexOf]
      have hend := trunc_nearest_le (q := q) hp
      rw [hsum, hmany, clampIndex_fin, clampIndex_fin]
      split_ifs <;> omega
    · have hnot : ¬ LeavesMany .memory len (.fin p) (.fin q) := by
        rintro ⟨start, stop, -, hstop, -⟩
        cases h : (Number.fin q).add (.fin p) with
        | fin t => exact hsum ⟨t, h⟩
        | _ => rw [h] at hstop; cases hstop
      refine iff_of_true ?_ hnot
      rcases ofRat_infinite fun t ht => hsum ⟨t, ht⟩ with ⟨-, hge⟩ | hneg
      · rw [clampIndex_of_overflow hlen hp hge, Nat.sub_eq_zero_of_le (clampIndex_le _ _)]
        exact Nat.zero_le _
      · rw [Number.add_fin, hneg]
        exact (Nat.zero_sub _).le.trans (Nat.zero_le _)
  · have hne : ∀ q p, offset = .fin q → limit ≠ .fin p := fun q p hq hp => hfin ⟨q, p, hq, hp⟩
    have hinf : limit ≠ .posInf := by rcases hlimit with rfl | ⟨p, -, rfl⟩ <;> simp
    rw [slice_infinite len offset limit hinf hne]
    refine iff_of_true (Nat.zero_le _) ?_
    rintro ⟨start, stop, hstart, hstop, -⟩
    rcases indexOf_infinite hne with hnone | hnone
    · rw [hnone] at hstart; cases hstart
    · rw [hnone] at hstop; cases hstop

theorem length_range (xs : List String) (m k : ℤ) : (Redis.range xs m k).length =
    min (min (if k < 0 then xs.length + k else k) (xs.length - 1) -
      max (if m < 0 then xs.length + m else m) 0 + 1).toNat
      (xs.length - (max (if m < 0 then xs.length + m else m) 0).toNat) := by
  rw [Redis.range, List.length_take, List.length_drop]

/-- A negative limit puts the last index before the first. -/
theorem last_le {p : Finite} (hp : p < 0) {first last : ℤ} (hfirst : first < 2 ^ 53)
    (hlast : Redis.index? (((Number.fin first).add (.fin p)).sub (.fin 1)) = some last) :
    last ≤ max (first - 1) (-2 ^ 53) := by
  have hsub := index?_eq_some hlast
  rw [Number.add_fin] at hsub
  cases hsum : Number.ofRat ((first : ℚ) + p) with
  | fin t =>
    rw [hsum, Number.sub_fin] at hsub
    obtain ⟨rfl, -⟩ := Number.ofRat_eq_fin.mp hsum
    obtain ⟨hlast, -⟩ := Number.ofRat_eq_fin.mp hsub
    have hmax : (first : ℚ) ≤ (max first (-2 ^ 53 + 1) : ℤ) := by exact_mod_cast le_max_left _ _
    have hend : IsDouble ((max first (-2 ^ 53 + 1) : ℤ) : ℚ) :=
      isDouble_intCast (abs_le.mpr ⟨by omega, by omega⟩)
    have hbefore : IsDouble ((max first (-2 ^ 53 + 1) - 1 : ℤ) : ℚ) :=
      isDouble_intCast (abs_le.mpr ⟨by omega, by omega⟩)
    have hle := nearest_le (x := first + p) hend (by linarith)
    have hle := nearest_le (x := nearest (first + p) - 1) hbefore (by push_cast at hle ⊢; linarith)
    rw [hlast] at hle
    have hle : last ≤ max first (-2 ^ 53 + 1) - 1 := by exact_mod_cast hle
    omega
  | nan => rw [hsum] at hsub; cases hsub
  | negInf => rw [hsum] at hsub; cases hsub
  | posInf => rw [hsum] at hsub; cases hsub

/-- **On Redis** the limit is applied to the range again, so that a positive one bounds it. A negative
one leaves a range only if it starts at the front and ends before the end, and takes as much off
again. -/
theorem redis_length {xs : List String} (hlen : xs.length < 2 ^ 32) {limit offset : Number}
    (hlimit : limit = .negInf ∨ ∃ p, p ≤ 200 ∧ limit = .fin p) {first last : ℤ}
    (hfirst : Redis.index? offset = some first)
    (hlast : Redis.index? ((offset.add limit).sub (.fin 1)) = some last) :
    limit.clampIndex (Redis.range xs first last).length ≤ 200 ↔
      ¬ LeavesMany .redis xs.length limit offset := by
  rcases hlimit with rfl | ⟨p, hp, rfl⟩
  · refine iff_of_true (Nat.zero_le _) ?_
    rintro ⟨-, -, cut, -, -, hcut, -⟩
    cases hcut
  · have hmany : LeavesMany .redis xs.length (.fin p) offset ↔ 0 ≤ first ∧ last < 0 ∧
        trunc p < 0 ∧ 200 < (xs.length : ℤ) + last - first + 1 + trunc p := by
      rw [LeavesMany, hfirst, hlast]
      simp [indexOf]
    rcases le_or_gt 0 p with hpos | hneg
    · have hlo : trunc (0 : ℤ) ≤ trunc p := trunc_mono (by exact_mod_cast hpos)
      have hhi : trunc p ≤ trunc (200 : ℤ) := trunc_mono (by exact_mod_cast hp)
      rw [trunc_intCast] at hlo hhi
      rw [hmany, clampIndex_fin]
      split_ifs <;> omega
    · have hsmall : trunc p ≤ trunc (0 : ℤ) := trunc_mono (by exact_mod_cast hneg.le)
      rw [trunc_intCast] at hsmall
      have hend : first < 2 ^ 53 → last ≤ max (first - 1) (-2 ^ 53) := fun h =>
        last_le hneg h (index?_eq_some hfirst ▸ hlast)
      rw [hmany, clampIndex_fin, length_range]
      split_ifs <;> omega

/-! ### The answer -/

theorem capped_iff {b : Backend} {env : Op → Input} {s : Store} {limit offset : Number} :
    Capped b env s limit offset ↔ ∀ items,
      pageOf b s ((limit.or (.fin 50)).min (.fin 200)) (offset.or (.fin 0)) = some items →
      items.length ≤ 200 ∧ items <:+: (listing b s).filterMap (lookup b s) := by
  rw [Capped, ask_pageOf]
  cases pageOf b s ((limit.or (.fin 50)).min (.fin 200)) (offset.or (.fin 0)) with
  | none => simp [sendError]
  | some items => simp

section
variable {b : Backend} {c : Config (apiSystem b)}

/-- What is listed has its record. -/
theorem listed (hc : Reachable b c) {l : List String} (hl : l <:+: listing b c.world.state) :
    (l.filterMap (lookup b c.world.state)).length = l.length := by
  rw [List.length_filterMap_eq_countP, List.countP_eq_length]
  intro i hi
  obtain ⟨job, hjob⟩ := hc.inv.lookup_some (hc.inv.pending_mem (mem_listing.mp (hl.subset hi)))
  exact Option.isSome_iff_exists.mpr ⟨job, hjob⟩

/-- **A page is consecutive jobs of the listing**, and it has 200 at most unless it overflows. -/
theorem pageOf_spec (hc : Reachable b c) (hlen : (listing b c.world.state).length < 2 ^ 32)
    {limit offset : Number} {items : List Job}
    (h : pageOf b c.world.state ((limit.or (.fin 50)).min (.fin 200)) (offset.or (.fin 0)) =
      some items) :
    items <:+: (listing b c.world.state).filterMap (lookup b c.world.state) ∧
    (items.length ≤ 200 ↔ ¬ Overflows b (listing b c.world.state).length limit offset) := by
  have hlimit := limit_cases limit
  unfold Overflows
  generalize (limit.or (.fin 50)).min (.fin 200) = limit at h hlimit ⊢
  generalize offset.or (.fin 0) = offset at h ⊢
  cases b with
  | memory =>
    obtain rfl := Option.some.inj h
    refine ⟨(isInfix_slice _ _ _).filterMap _, ?_⟩
    rw [listed hc (isInfix_slice c.world.state.mem.order _ _), length_slice]
    exact memory_length hlen offset hlimit
  | redis =>
    obtain ⟨first, hfirst, h⟩ := Option.bind_eq_some_iff.mp h
    obtain ⟨last, hlast, h⟩ := Option.bind_eq_some_iff.mp h
    obtain rfl := Option.some.inj h
    have hrange := isInfix_range (c.world.state.redis.lists QUEUE_KEY) first last
    have hfront : ∀ len, (Number.fin 0).clampIndex len = 0 := fun len => by
      simp [Number.clampIndex]
    refine ⟨(isInfix_slice _ _ _).trans (hrange.filterMap _), ?_⟩
    rw [length_slice, listed hc hrange, hfront, Nat.sub_zero]
    exact redis_length hlen hlimit hfirst hlast

theorem exists_pageOf {limit offset : Number} (s : Store)
    (h : Overflows b (listing b s).length limit offset) : ∃ items,
    pageOf b s ((limit.or (.fin 50)).min (.fin 200)) (offset.or (.fin 0)) = some items := by
  cases b with
  | memory => exact ⟨_, rfl⟩
  | redis =>
    obtain ⟨first, last, -, hfirst, hlast, -⟩ := h
    exact ⟨_, Option.bind_eq_some_iff.mpr ⟨first, hfirst,
      Option.bind_eq_some_iff.mpr ⟨last, hlast, rfl⟩⟩⟩

theorem not_capped (hc : Reachable b c) (hlen : (listing b c.world.state).length < 2 ^ 32)
    {env : Op → Input} {limit offset : Number}
    (h : Overflows b (listing b c.world.state).length limit offset) :
    ¬ Capped b env c.world.state limit offset := by
  rw [capped_iff]
  intro hcap
  obtain ⟨items, hitems⟩ := exists_pageOf _ h
  exact (pageOf_spec hc hlen hitems).2.mp (hcap items hitems).1 h

/-- **A page is capped exactly if it does not overflow**; what is on it is consecutive in any case.
Neither an array nor a list of Redis has `2 ^ 32` elements. -/
theorem page_cap_iff (b : Backend) (c : Config (apiSystem b)) (hc : Reachable b c)
    (hlen : (listing b c.world.state).length < 2 ^ 32) (env : Op → Input)
    (limit offset : Number) : Capped b env c.world.state limit offset ↔
      ¬ Overflows b (listing b c.world.state).length limit offset := by
  constructor
  · exact fun hcap h => not_capped hc hlen h hcap
  · intro h
    refine capped_iff.mpr fun items hitems => ?_
    obtain ⟨hconsecutive, hshort⟩ := pageOf_spec hc hlen hitems
    exact ⟨hshort.mpr h, hconsecutive⟩

end

/-- One job waits, and `limit=-1` takes it off the page. -/
theorem page_cap_run : ∃ c, (start .memory).run (submission 0) = some c ∧
    (listing .memory c.world.state).length = 1 ∧
    Capped .memory (fun _ => {}) c.world.state (.fin (-1)) .nan := by
  obtain ⟨c, hc⟩ : ∃ c, (start .memory).run (submission 0) = some c :=
    Option.isSome_iff_exists.mp rfl
  have hlen : ((start .memory).run (submission 0)).map
      (fun c => (listing .memory c.world.state).length) = some 1 := rfl
  rw [hc, Option.map_some, Option.some.injEq] at hlen
  refine ⟨c, hc, hlen, (page_cap_iff .memory c (reaches_of_run hc) (by omega) _ _ _).mpr ?_⟩
  rw [hlen]
  rintro ⟨start, stop, hstart, hstop, h⟩
  have hfront : indexOf (Number.nan.or (.fin 0)) = some 0 := by decide +kernel
  obtain rfl := Option.some.inj (hfront.symm.trans hstart)
  omega

/-! ### Long queues -/

/-- The body of a submission. -/
def snippet : Json := .obj [("language", .str "python"), ("code", .str "print(1)")]

/-- **A submission that goes ahead of the execution it starts** makes the listing longer. -/
theorem ahead_submission (b : Backend) (inp : Input) (s : Store) (hne : inp.uuid ≠ "")
    (hfresh : inp.uuid ∉ s.issued) : ∃ x,
    ahead (M := machine) (fun _ => inp) ((handle b (.execute snippet)).toThread replied) s =
      some x ∧ (listing b x.2).length = (listing b s).length + 1 := by
  have huuid : machine.exec (.host .randomUUID) inp s =
      some (inp.uuid, { s with issued := inp.uuid :: s.issued }) := if_pos ⟨hne, hfresh⟩
  cases b with
  | redis =>
    refine ⟨_, (ahead_op huuid).trans rfl, ?_⟩
    rfl
  | memory =>
    let job := newJob inp.uuid ⟨"", [], some [("CODEHIVE_LANG", "python")], none, none, none⟩
      (toISOString inp.ms)
    let s₁ : Store := { s with mem := s.mem.enqueue job, issued := inp.uuid :: s.issued }
    have hjob : s₁.mem.jobs inp.uuid = some job := Function.update_self _ _ _
    have hload : machine.exec (.mem (.load inp.uuid)) inp s₁ = some (job, s₁) :=
      congrArg (Option.map fun job => (job, s₁)) hjob
    have hok : (s₁.mem.updateJob inp.uuid { status := some .running } (toISOString inp.ms)).1 =
        .ok () := by
      simp only [MemoryQueue.updateJob, hjob]
    have hup : machine.exec (.mem (.updateJob inp.uuid { status := some .running })) inp s₁ =
        some (.ok (), _) := congrArg (fun r => some (r, _)) hok
    -- the id, the clock, `enqueue`, the `await`, the read of the job, the clock, `updateJob`
    refine ⟨_, (ahead_op huuid).trans ((ahead_op rfl).trans ((ahead_op rfl).trans
      (ahead_yield.trans ((ahead_op hload).trans ((ahead_op rfl).trans
        ((ahead_op hup).trans rfl)))))), ?_⟩
    exact (congrArg List.length Records.updateJob_order).trans List.length_append

/-- **The queue gets as long as its clients like.** -/
theorem exists_queue (b : Backend) (n : ℕ) : ∃ c, Reachable b c ∧ c.running = none ∧
    (listing b c.world.state).length = n := by
  induction n with
  | zero => exact ⟨start b, .refl, rfl, by cases b <;> rfl⟩
  | succ n ih =>
    obtain ⟨c, hc, hrun, hlen⟩ := ih
    obtain ⟨id, hne, hfresh⟩ := exists_fresh c.world.state.issued
    obtain ⟨⟨r, s⟩, hs, hlonger⟩ := ahead_submission b { uuid := id } c.world.state hne hfresh
    have hentry : (apiSystem b).entry (.request (.execute snippet)) =
        some ((handle b (.execute snippet)).toThread replied) := rfl
    obtain ⟨c', hr, hrun', -, rfl⟩ := ahead_arrives hrun hentry hs
    exact ⟨c', hc.trans hr, hrun', by rw [hlonger, hlen]⟩

/-- **`limit=-1` is not capped**: of 203 jobs that wait, more than 200 are on the page. -/
theorem page_not_capped :
    (∃ c, Reachable .memory c ∧ (listing .memory c.world.state).length = 203 ∧
      ¬ Capped .memory (fun _ => {}) c.world.state (.fin (-1)) .nan) ∧
    ∃ c, Reachable .redis c ∧ (listing .redis c.world.state).length = 203 ∧
      ¬ Capped .redis (fun _ => {}) c.world.state (.fin (-1)) .nan := by
  have hover : ∀ b, Overflows b 203 (.fin (-1)) .nan := by
    intro b
    cases b with
    | memory => exact ⟨0, -1, by decide +kernel, by decide +kernel, by decide⟩
    | redis => exact ⟨0, -2, -1, by decide +kernel, by decide +kernel, by decide +kernel, by decide⟩
  constructor
  · obtain ⟨c, hc, -, hlen⟩ := exists_queue .memory 203
    exact ⟨c, hc, hlen, not_capped hc (by omega) (hlen ▸ hover .memory)⟩
  · obtain ⟨c, hc, -, hlen⟩ := exists_queue .redis 203
    exact ⟨c, hc, hlen, not_capped hc (by omega) (hlen ▸ hover .redis)⟩

end CodeHive.Api.PageCap
