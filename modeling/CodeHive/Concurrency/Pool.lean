import CodeHive.Concurrency.Calls
import CodeHive.Lists.Slots

/-! # The event loop

A *pool* holds every call ever made, each with what is left of it. One call at a time is running:
it performs its primitives without interruption until it suspends or settles, and only then may the
loop resume another one or accept a new one. Every primitive that was performed is logged with the
call that performed it and its answer, so that statements about a run (what was handed out, in
which order) are statements about the log. -/

namespace CodeHive.Concurrency.Pool

set_option autoImplicit false

open CodeHive.Concurrency.Calls CodeHive.Lists.Slots

/-- What the primitives do to the state. `Input` carries what the environment decides (a clock
reading, a fresh id, the outcome of a process); `none` excludes an input in a state. -/
structure Machine (S : Sig) where
  State : Type
  Input : Type
  exec : (o : S.Op) → Input → State → Option (S.Ret o × State)

/-- One call: its place in the pool, what it is, and the length of the log when it was made. -/
structure Actor (τ : Type) where
  tid : ℕ
  tag : τ
  born : ℕ

inductive Event (S : Sig) (τ : Type) where
  /-- The call was made. -/
  | started (a : Actor τ)
  /-- The call performed `o` and was answered `r`. -/
  | ran (a : Actor τ) (o : S.Op) (r : S.Ret o)

/-- The call an event belongs to. -/
def Event.actor {S : Sig} {τ : Type} : Event S τ → Actor τ
  | .started a => a
  | .ran a _ _ => a

/-- A machine, and the calls that may arrive from outside. -/
structure System (S : Sig) (τ ρ : Type) extends Machine S where
  entry : τ → Option (Thread S τ ρ)

section
variable {S : Sig} {τ ρ : Type}

/-- The state, and everything that has happened. -/
@[ext] structure World (M : Machine S) (τ : Type) where
  state : M.State
  log : List (Event S τ)

variable {M : Machine S}

/-- The world after the call `a` was made. -/
def World.start (w : World M τ) (a : Actor τ) : World M τ :=
  { w with log := w.log ++ [.started a] }

/-- The world after `a` performed `o`, and the answer. -/
def World.fire (w : World M τ) (a : Actor τ) (o : S.Op) (i : M.Input) :
    Option (S.Ret o × World M τ) :=
  (M.exec o i w.state).map fun x => (x.1, ⟨x.2, w.log ++ [.ran a o x.1]⟩)

theorem World.fire_eq_some {w w' : World M τ} {a : Actor τ} {o : S.Op} {i : M.Input} {r : S.Ret o} :
    w.fire a o i = some (r, w') ↔
      ∃ s, M.exec o i w.state = some (r, s) ∧ w' = ⟨s, w.log ++ [.ran a o r]⟩ := by
  unfold World.fire
  rw [Option.map_eq_some_iff]
  constructor
  · rintro ⟨⟨r', s⟩, h, he⟩
    cases he
    exact ⟨s, h, rfl⟩
  · rintro ⟨s, h, rfl⟩
    exact ⟨(r, s), h, rfl⟩

end

section
variable {S : Sig} {τ ρ : Type}

/-- The world, the calls, and the one that is running. -/
structure Config (sys : System S τ ρ) where
  world : World sys.toMachine τ
  pool : List (Actor τ × Thread S τ ρ)
  running : Option ℕ

/-- Nothing has happened yet. -/
def Config.init (sys : System S τ ρ) (s : sys.State) : Config sys := ⟨⟨s, []⟩, [], none⟩

inductive Label (τ ι : Type) where
  /-- A call arrives. -/
  | arrive (tag : τ)
  /-- The loop resumes call `t`. -/
  | resume (t : ℕ)
  /-- The running call goes on. -/
  | next (i : ι)

variable {sys : System S τ ρ}

/-- The next call of the pool. -/
def Config.fresh (c : Config sys) (tag : τ) : Actor τ := ⟨c.pool.length, tag, c.world.log.length⟩

/-- The running call `t` goes on: it performs its next primitive, detaches a call, or hands the
loop back. -/
def Config.advance (c : Config sys) (t : ℕ) (i : sys.Input) : Option (Config sys) :=
  match c.pool[t]? with
  | some (a, .op o k) =>
    (c.world.fire a o i).map fun x => ⟨x.2, c.pool.set t (a, k x.1), some t⟩
  | some (a, .fork tag child p) =>
    some ⟨c.world.start (c.fresh tag), c.pool.set t (a, p) ++ [(c.fresh tag, .yield child)], some t⟩
  | some (_, .yield _) => some { c with running := none }
  | some (_, .done _) => some { c with running := none }
  | none => none

/-- **One step of the event loop.** -/
def Config.step (c : Config sys) : Label τ sys.Input → Option (Config sys)
  | .arrive tag =>
    match c.running, sys.entry tag with
    | none, some p =>
      some { c with
        world := c.world.start (c.fresh tag)
        pool := c.pool ++ [(c.fresh tag, .yield p)] }
    | _, _ => none
  | .resume t =>
    match c.running, c.pool[t]? with
    | none, some (a, .yield p) => some { c with pool := c.pool.set t (a, p), running := some t }
    | _, _ => none
  | .next i =>
    match c.running with
    | some t => c.advance t i
    | none => none

/-- Follow a schedule. -/
def Config.run (c : Config sys) : List (Label τ sys.Input) → Option (Config sys)
  | [] => some c
  | l :: ls => (c.step l).bind fun c' => c'.run ls

/-- Follow a schedule as long as the primitives performed pass the test `ok`. -/
def Config.runIf (ok : Actor τ → World sys.toMachine τ → S.Op → Bool) (c : Config sys) :
    List (Label τ sys.Input) → Option (Config sys)
  | [] => some c
  | l :: ls =>
    match l, c.running.bind fun t => c.pool[t]? with
    | .next _, some (a, .op o _) =>
      if ok a c.world o then (c.step l).bind fun c' => c'.runIf ok ls else none
    | _, _ => (c.step l).bind fun c' => c'.runIf ok ls

/-- **A run, all of whose steps satisfy `P`**: the schedule can be followed from `c`, and `P` holds
of each step (the configuration before it, its label, the configuration after it). -/
def Along (P : Config sys → Label τ sys.Input → Config sys → Prop) :
    Config sys → List (Label τ sys.Input) → Prop
  | _, [] => True
  | c, l :: ls => ∃ c', c.step l = some c' ∧ P c l c' ∧ Along P c' ls

/-- `c` is reached from `c₀` by steps that satisfy `G`. -/
inductive Reaches (G : Config sys → Label τ sys.Input → Prop) (c₀ : Config sys) :
    Config sys → Prop where
  | refl : Reaches G c₀ c₀
  | step {c c' : Config sys} {l : Label τ sys.Input} (h : Reaches G c₀ c) (hG : G c l)
      (hs : c.step l = some c') : Reaches G c₀ c'

/-- Any step. -/
abbrev AnyStep (sys : System S τ ρ) : Config sys → Label τ sys.Input → Prop := fun _ _ => True

/-- The steps that perform a primitive only where `g` allows it. -/
def Allowed (g : Actor τ → World sys.toMachine τ → S.Op → Prop) (c : Config sys)
    (l : Label τ sys.Input) : Prop :=
  ∀ t a o k i, l = .next i → c.running = some t → c.pool[t]? = some (a, .op o k) → g a c.world o

/-! ### Runs -/

theorem Reaches.mono {G G' : Config sys → Label τ sys.Input → Prop} (h : ∀ c l, G c l → G' c l)
    {c₀ c : Config sys} (hr : Reaches G c₀ c) : Reaches G' c₀ c := by
  induction hr with
  | refl => exact .refl
  | step _ hG hs ih => exact .step ih (h _ _ hG) hs

theorem Reaches.trans {G : Config sys → Label τ sys.Input → Prop} {c₀ c₁ c₂ : Config sys}
    (h₁ : Reaches G c₀ c₁) (h₂ : Reaches G c₁ c₂) : Reaches G c₀ c₂ := by
  induction h₂ with
  | refl => exact h₁
  | step _ hG hs ih => exact .step ih hG hs

theorem Reaches.any {G : Config sys → Label τ sys.Input → Prop} {c₀ c : Config sys}
    (h : Reaches G c₀ c) : Reaches (AnyStep sys) c₀ c := h.mono fun _ _ _ => trivial

theorem reaches_of_run {c : Config sys} : ∀ {ls : List (Label τ sys.Input)} {c' : Config sys},
    c.run ls = some c' → Reaches (AnyStep sys) c c'
  | [], c', h => by
    simp only [Config.run, Option.some.injEq] at h
    exact h ▸ .refl
  | l :: ls, c', h => by
    obtain ⟨c₁, h₁, h₂⟩ := Option.bind_eq_some_iff.mp h
    exact (Reaches.step .refl trivial h₁).trans (reaches_of_run h₂)

theorem run_of_runIf {ok : Actor τ → World sys.toMachine τ → S.Op → Bool} {c : Config sys}
    {ls : List (Label τ sys.Input)} {c' : Config sys} (h : c.runIf ok ls = some c') :
    c.run ls = some c' := by
  induction ls generalizing c with
  | nil => exact h
  | cons l ls ih =>
    suffices hs : (c.step l).bind (fun c₁ => c₁.runIf ok ls) = some c' by
      obtain ⟨c₁, h₁, h₂⟩ := Option.bind_eq_some_iff.mp hs
      exact Option.bind_eq_some_iff.mpr ⟨c₁, h₁, ih h₂⟩
    unfold Config.runIf at h
    split at h
    · split_ifs at h
      exact h
    · exact h

theorem reaches_of_runIf {ok : Actor τ → World sys.toMachine τ → S.Op → Bool}
    {g : Actor τ → World sys.toMachine τ → S.Op → Prop} (hg : ∀ a w o, ok a w o = true → g a w o)
    {c : Config sys} {ls : List (Label τ sys.Input)} {c' : Config sys}
    (h : c.runIf ok ls = some c') : Reaches (Allowed g) c c' := by
  induction ls generalizing c with
  | nil =>
    simp only [Config.runIf, Option.some.injEq] at h
    exact h ▸ .refl
  | cons l ls ih =>
    unfold Config.runIf at h
    split at h
    · next i a o k hop =>
      split_ifs at h with hok
      obtain ⟨c₁, h₁, h₂⟩ := Option.bind_eq_some_iff.mp h
      refine (Reaches.step .refl (fun t b o' k' j _ hrun hp => ?_) h₁).trans (ih h₂)
      rw [hrun, Option.bind_some, hp, Option.some.injEq, Prod.mk.injEq] at hop
      obtain ⟨rfl, hop⟩ := hop
      cases hop
      exact hg _ _ _ hok
    · next hop =>
      obtain ⟨c₁, h₁, h₂⟩ := Option.bind_eq_some_iff.mp h
      refine (Reaches.step .refl (fun t b o' k' j hl hrun hp => ?_) h₁).trans (ih h₂)
      exact absurd (by rw [hrun, Option.bind_some, hp]) (hop j b o' k' hl)

/-- **The induction over runs.** Where `Q` holds at the start and, at every reachable configuration
where it holds, a step keeps it exactly when the step meets `C`, it holds along a run exactly when
all steps of the run meet `C`. -/
theorem along_iff {c₀ : Config sys} {Q : Config sys → Prop}
    {C : Config sys → Label τ sys.Input → Prop} (hQ : Q c₀)
    (hstep : ∀ c l c', Reaches (AnyStep sys) c₀ c → Q c → c.step l = some c' → (Q c' ↔ C c l))
    (ls : List (Label τ sys.Input)) :
    Along (fun _ _ c' => Q c') c₀ ls ↔ Along (fun c l _ => C c l) c₀ ls := by
  suffices H : ∀ (ls : List (Label τ sys.Input)) (c : Config sys), Reaches (AnyStep sys) c₀ c →
      Q c → (Along (fun _ _ c' => Q c') c ls ↔ Along (fun c l _ => C c l) c ls) from
    H ls c₀ .refl hQ
  intro ls
  induction ls with
  | nil => intro c _ _; exact Iff.rfl
  | cons l ls ih =>
    intro c hc hq
    constructor
    · rintro ⟨c', hs, hq', hrest⟩
      exact ⟨c', hs, (hstep c l c' hc hq hs).mp hq', (ih c' (hc.step trivial hs) hq').mp hrest⟩
    · rintro ⟨c', hs, hC, hrest⟩
      have hq' := (hstep c l c' hc hq hs).mpr hC
      exact ⟨c', hs, hq', (ih c' (hc.step trivial hs) hq').mpr hrest⟩

/-- The same for a property of the single steps. -/
theorem along_congr {c₀ : Config sys} {P P' : Config sys → Label τ sys.Input → Config sys → Prop}
    (hstep : ∀ c l c', Reaches (AnyStep sys) c₀ c → c.step l = some c' → (P c l c' ↔ P' c l c'))
    (ls : List (Label τ sys.Input)) : Along P c₀ ls ↔ Along P' c₀ ls := by
  suffices H : ∀ (ls : List (Label τ sys.Input)) (c : Config sys), Reaches (AnyStep sys) c₀ c →
      (Along P c ls ↔ Along P' c ls) from H ls c₀ .refl
  intro ls
  induction ls with
  | nil => intro c _; exact Iff.rfl
  | cons l ls ih =>
    intro c hc
    refine exists_congr fun c' => and_congr_right fun hs => ?_
    exact and_congr (hstep c l c' hc hs) (ih c' (hc.step trivial hs))

/-! ### What a step does -/

/-- The shapes of a step: a call arrives, is resumed, performs a primitive, detaches a call, or
hands the loop back. -/
inductive Stepped (c : Config sys) : Label τ sys.Input → Config sys → Prop where
  | arrive {tag : τ} {p : Thread S τ ρ} (hrun : c.running = none) (hp : sys.entry tag = some p) :
      Stepped c (.arrive tag) { c with
        world := c.world.start (c.fresh tag)
        pool := c.pool ++ [(c.fresh tag, .yield p)] }
  | resume {t : ℕ} {a : Actor τ} {p : Thread S τ ρ} (hrun : c.running = none)
      (hp : c.pool[t]? = some (a, .yield p)) :
      Stepped c (.resume t) { c with pool := c.pool.set t (a, p), running := some t }
  | op {t : ℕ} {a : Actor τ} {o : S.Op} {k : S.Ret o → Thread S τ ρ} {i : sys.Input} {r : S.Ret o}
      {w : World sys.toMachine τ} (hrun : c.running = some t)
      (hp : c.pool[t]? = some (a, .op o k)) (hf : c.world.fire a o i = some (r, w)) :
      Stepped c (.next i) ⟨w, c.pool.set t (a, k r), some t⟩
  | fork {t : ℕ} {a : Actor τ} {tag : τ} {child p : Thread S τ ρ} {i : sys.Input}
      (hrun : c.running = some t) (hp : c.pool[t]? = some (a, .fork tag child p)) :
      Stepped c (.next i) ⟨c.world.start (c.fresh tag),
        c.pool.set t (a, p) ++ [(c.fresh tag, .yield child)], some t⟩
  | pause {t : ℕ} {a : Actor τ} {p : Thread S τ ρ} {i : sys.Input} (hrun : c.running = some t)
      (hp : c.pool[t]? = some (a, p)) (hs : p.Suspended) :
      Stepped c (.next i) { c with running := none }

theorem stepped_of_step {c c' : Config sys} {l : Label τ sys.Input} (h : c.step l = some c') :
    Stepped c l c' := by
  cases l with
  | arrive tag =>
    simp only [Config.step] at h
    split at h
    · next p hrun hp => cases h; exact .arrive hrun hp
    · cases h
  | resume t =>
    simp only [Config.step] at h
    split at h
    · next a p hrun hp => cases h; exact .resume hrun hp
    · cases h
  | next i =>
    simp only [Config.step] at h
    split at h
    · next t hrun =>
      unfold Config.advance at h
      split at h
      · next a o k hp =>
        rw [Option.map_eq_some_iff] at h
        obtain ⟨⟨r, w⟩, hf, rfl⟩ := h
        exact .op hrun hp hf
      · next a tag child p hp => cases h; exact .fork hrun hp
      · next a p hp => cases h; exact .pause hrun hp trivial
      · next a r hp => cases h; exact .pause hrun hp trivial
      · cases h
    · cases h

theorem Stepped.step {c c' : Config sys} {l : Label τ sys.Input} (h : Stepped c l c') :
    c.step l = some c' := by
  cases h with
  | arrive hrun hp => simp only [Config.step, hrun, hp]
  | resume hrun hp => simp only [Config.step, hrun, hp]
  | op hrun hp hf => simp only [Config.step, hrun, Config.advance, hp, hf, Option.map_some]
  | fork hrun hp => simp only [Config.step, hrun, Config.advance, hp]
  | @pause t a p i hrun hp hs =>
    simp only [Config.step, hrun, Config.advance, hp]
    cases p with
    | done r => rfl
    | yield p => rfl
    | op o k => exact hs.elim
    | fork tag child p => exact hs.elim

/-- A property of steps that only a primitive can break, and does not where `g` allows it. -/
theorem step_iff_allowed {P : Config sys → Label τ sys.Input → Config sys → Prop}
    {g : Actor τ → World sys.toMachine τ → S.Op → Prop} {c c' : Config sys}
    {l : Label τ sys.Input} (hs : c.step l = some c')
    (hstill : ∀ l c', c'.world.state = c.world.state → P c l c')
    (hop : ∀ (t : ℕ) (a : Actor τ) (o : S.Op) (k : S.Ret o → Thread S τ ρ) (i : sys.Input)
      (r : S.Ret o) (c' : Config sys), c.pool[t]? = some (a, .op o k) →
      c.world.fire a o i = some (r, c'.world) → (P c (.next i) c' ↔ g a c.world o)) :
    P c l c' ↔ Allowed g c l := by
  cases stepped_of_step hs with
  | arrive hrun hp => exact ⟨fun _ => nofun, fun _ => hstill _ _ rfl⟩
  | resume hrun hp => exact ⟨fun _ => nofun, fun _ => hstill _ _ rfl⟩
  | @op t a o k i r w hrun hp hf =>
    rw [hop t a o k i r _ hp hf]
    constructor
    · rintro hg u d o' k' j - hrun' hp'
      rw [hrun, Option.some.injEq] at hrun'
      subst hrun'
      rw [hp, Option.some.injEq, Prod.mk.injEq] at hp'
      obtain ⟨rfl, hp'⟩ := hp'
      cases hp'
      exact hg
    · exact fun h => h t a o k i rfl hrun hp
  | @fork t a tag child p i hrun hp =>
    refine ⟨fun _ u d o' k' j _ hrun' hp' => ?_, fun _ => hstill _ _ rfl⟩
    rw [hrun, Option.some.injEq] at hrun'
    subst hrun'
    rw [hp, Option.some.injEq, Prod.mk.injEq] at hp'
    cases hp'.2
  | @pause t a p i hrun hp hsus =>
    refine ⟨fun _ u d o' k' j _ hrun' hp' => ?_, fun _ => hstill _ _ rfl⟩
    rw [hrun, Option.some.injEq] at hrun'
    subst hrun'
    rw [hp, Option.some.injEq, Prod.mk.injEq] at hp'
    obtain ⟨-, rfl⟩ := hp'
    exact hsus.elim

/-! ### What a run leaves in place -/

/-- What is there stays: the log grows, calls keep their place, settled calls stay settled, and the
calls made later know how much had happened. -/
structure Extends (c c' : Config sys) : Prop where
  log : c.world.log <+: c'.world.log
  pool : ∀ (t : ℕ) (a : Actor τ) (p : Thread S τ ρ), c.pool[t]? = some (a, p) →
    ∃ p', c'.pool[t]? = some (a, p')
  settled : ∀ (t : ℕ) (a : Actor τ) (r : ρ), c.pool[t]? = some (a, .done r) →
    c'.pool[t]? = some (a, .done r)
  later : ∀ (t : ℕ) (a : Actor τ) (p : Thread S τ ρ), c'.pool[t]? = some (a, p) →
    c.pool.length ≤ t → c.world.log.length ≤ a.born

theorem Extends.refl (c : Config sys) : Extends c c where
  log := List.prefix_rfl
  pool _ _ p h := ⟨p, h⟩
  settled _ _ _ h := h
  later _ _ _ h hle := absurd (List.getElem?_eq_some_iff.mp h).1 (Nat.not_lt.mpr hle)

theorem Extends.trans {c₀ c₁ c₂ : Config sys} (h₁ : Extends c₀ c₁) (h₂ : Extends c₁ c₂) :
    Extends c₀ c₂ where
  log := h₁.log.trans h₂.log
  pool t a p h := by
    obtain ⟨p₁, hp₁⟩ := h₁.pool t a p h
    exact h₂.pool t a p₁ hp₁
  settled t a r h := h₂.settled t a r (h₁.settled t a r h)
  later t a p h hle := by
    by_cases ht : t < c₁.pool.length
    · obtain ⟨p', hp'⟩ := h₂.pool t c₁.pool[t].1 c₁.pool[t].2 (by rw [List.getElem?_eq_getElem ht])
      rw [h, Option.some.injEq, Prod.mk.injEq] at hp'
      rw [hp'.1]
      exact h₁.later t _ _ (by rw [List.getElem?_eq_getElem ht]) hle
    · exact Nat.le_trans h₁.log.length_le (h₂.later t a p h (by omega))

/-- Calls keep their place where one goes on. -/
theorem pool_set_keeps {c : Config sys} {t u : ℕ} {a b : Actor τ} {p r : Thread S τ ρ}
    (ht : c.pool[t]? = some (a, p)) (hu : c.pool[u]? = some (b, r)) (q : Thread S τ ρ) :
    ∃ r', (c.pool.set t (a, q))[u]? = some (b, r') := by
  rcases getElem?_set_keeps (y := (a, q)) ht hu with h | ⟨rfl, h⟩
  · exact ⟨r, h⟩
  · rw [ht, Option.some.injEq, Prod.mk.injEq] at hu
    exact ⟨q, hu.1 ▸ h⟩

/-- A call goes on. -/
theorem Extends.of_set {c c' : Config sys} {t : ℕ} {a : Actor τ} {p q : Thread S τ ρ}
    (hlog : c.world.log <+: c'.world.log) (hpool : c'.pool = c.pool.set t (a, q))
    (ht : c.pool[t]? = some (a, p)) (hp : ∀ r, p ≠ .done r) : Extends c c' where
  log := hlog
  pool u b r hu := by
    rw [hpool]
    exact pool_set_keeps ht hu q
  settled u b r hu := by
    rw [hpool]
    rcases getElem?_set_keeps (y := (a, q)) ht hu with h | ⟨rfl, -⟩
    · exact h
    · rw [ht, Option.some.injEq, Prod.mk.injEq] at hu
      exact absurd hu.2 (hp r)
  later u b r hu hle := by
    have := (List.getElem?_eq_some_iff.mp hu).1
    rw [hpool, List.length_set] at this
    omega

/-- A new call is made. -/
theorem Extends.of_concat {c c' : Config sys} (tag : τ) {p : Thread S τ ρ}
    (hlog : c'.world.log = c.world.log ++ [.started (c.fresh tag)])
    (hpool : c'.pool = c.pool ++ [(c.fresh tag, p)]) : Extends c c' where
  log := by rw [hlog]; exact List.prefix_append _ _
  pool t a q h := ⟨q, by
    rw [hpool, List.getElem?_append_left (List.getElem?_eq_some_iff.mp h).1]; exact h⟩
  settled t a r h := by
    rw [hpool, List.getElem?_append_left (List.getElem?_eq_some_iff.mp h).1]; exact h
  later t a q h hle := by
    rw [hpool] at h
    rcases getElem?_concat_cases h with h | ⟨-, h⟩
    · exact absurd (List.getElem?_eq_some_iff.mp h).1 (Nat.not_lt.mpr hle)
    · cases h; exact Nat.le_refl _

theorem Stepped.extends {c c' : Config sys} {l : Label τ sys.Input} (h : Stepped c l c') :
    Extends c c' := by
  cases h with
  | arrive hrun hp => exact .of_concat _ rfl rfl
  | resume hrun hp => exact .of_set List.prefix_rfl rfl hp nofun
  | op hrun hp hf =>
    obtain ⟨s, -, rfl⟩ := World.fire_eq_some.mp hf
    exact .of_set (List.prefix_append _ _) rfl hp nofun
  | @fork t a tag child p i hrun hp =>
    have h₁ : Extends c { c with pool := c.pool.set t (a, p) } :=
      .of_set List.prefix_rfl rfl hp nofun
    have hlen : (c.pool.set t (a, p)).length = c.pool.length := List.length_set
    refine h₁.trans (.of_concat tag (p := .yield child) ?_ ?_) <;>
      simp [Config.fresh, World.start]
  | pause hrun hp hs =>
    exact ⟨List.prefix_rfl, fun t a p h => ⟨p, h⟩, fun _ _ _ h => h, (Extends.refl c).later⟩

/-- What was performed is in the log, so a condition on the log is one on every step. -/
theorem Reaches.allowed_of_log {c₀ c : Config sys} (h : Reaches (AnyStep sys) c₀ c)
    {g : Actor τ → S.Op → Prop} (hg : ∀ a o r, .ran a o r ∈ c.world.log → g a o) :
    Reaches (Allowed fun a _ o => g a o) c₀ c := by
  induction h with
  | refl => exact .refl
  | step _ _ hs ih =>
    have hlog := (stepped_of_step hs).extends.log
    refine .step (ih fun a o r he => hg a o r (hlog.subset he)) (fun t a o k i hl hrun hp => ?_) hs
    subst hl
    cases stepped_of_step hs with
    | op hrun' hp' hf =>
      rw [hrun', Option.some.injEq] at hrun
      subst hrun
      rw [hp', Option.some.injEq, Prod.mk.injEq] at hp
      obtain ⟨rfl, hp⟩ := hp
      cases hp
      obtain ⟨s, -, rfl⟩ := World.fire_eq_some.mp hf
      exact hg _ _ _ (List.mem_append_right _ List.mem_cons_self)
    | fork hrun' hp' =>
      rw [hrun', Option.some.injEq] at hrun
      subst hrun
      rw [hp', Option.some.injEq, Prod.mk.injEq] at hp
      cases hp.2
    | pause hrun' hp' hsus =>
      rw [hrun', Option.some.injEq] at hrun
      subst hrun
      rw [hp', Option.some.injEq, Prod.mk.injEq] at hp
      obtain ⟨-, rfl⟩ := hp
      exact hsus.elim

theorem Reaches.extends {G : Config sys → Label τ sys.Input → Prop} {c c' : Config sys}
    (h : Reaches G c c') : Extends c c' := by
  induction h with
  | refl => exact .refl c
  | step _ _ hs ih => exact ih.trans (stepped_of_step hs).extends

/-- A step leaves a call what it ends with. -/
theorem Stepped.ends {c c' : Config sys} {l : Label τ sys.Input} (h : Stepped c l c') {u : ℕ}
    {b : Actor τ} {q : Thread S τ ρ} {Q : ρ → Prop} (hu : c.pool[u]? = some (b, q))
    (hq : q.Ends Q) : ∃ q', c'.pool[u]? = some (b, q') ∧ q'.Ends Q := by
  have hset : ∀ {t : ℕ} {a : Actor τ} {p p' : Thread S τ ρ}, c.pool[t]? = some (a, p) →
      (p.Ends Q → p'.Ends Q) → ∃ q', (c.pool.set t (a, p'))[u]? = some (b, q') ∧ q'.Ends Q := by
    intro t a p p' hp himp
    rcases getElem?_set_keeps (y := (a, p')) hp hu with hk | ⟨rfl, hk⟩
    · exact ⟨q, hk, hq⟩
    · rw [hp, Option.some.injEq, Prod.mk.injEq] at hu
      obtain ⟨rfl, rfl⟩ := hu
      exact ⟨p', hk, himp hq⟩
  have happend : ∀ {pool : List (Actor τ × Thread S τ ρ)} {x : Actor τ × Thread S τ ρ},
      (∃ q', pool[u]? = some (b, q') ∧ q'.Ends Q) →
      ∃ q', (pool ++ [x])[u]? = some (b, q') ∧ q'.Ends Q := by
    rintro pool x ⟨q', hk, hq'⟩
    refine ⟨q', ?_, hq'⟩
    rw [List.getElem?_append_left (List.getElem?_eq_some_iff.mp hk).1]
    exact hk
  cases h with
  | arrive hrun hp => exact happend ⟨q, hu, hq⟩
  | resume hrun hp => exact hset hp id
  | op hrun hp hf => exact hset hp fun hends => hends _
  | fork hrun hp => exact happend (hset hp id)
  | pause hrun hp hs => exact ⟨q, hu, hq⟩

/-- Calls know their place and their beginning, and what is logged or running is a call of the
pool. -/
structure Wf (c : Config sys) : Prop where
  tid : ∀ (t : ℕ) (a : Actor τ) (p : Thread S τ ρ), c.pool[t]? = some (a, p) → a.tid = t
  born : ∀ (t : ℕ) (a : Actor τ) (p : Thread S τ ρ), c.pool[t]? = some (a, p) →
    a.born ≤ c.world.log.length
  log : ∀ e ∈ c.world.log, ∃ p, c.pool[e.actor.tid]? = some (e.actor, p)
  since : ∀ (n : ℕ) (e : Event S τ), c.world.log[n]? = some e → e.actor.born ≤ n
  running : ∀ t, c.running = some t → t < c.pool.length

theorem Wf.init (s : sys.State) : Wf (Config.init sys s) := by
  constructor <;> simp [Config.init]

/-- What is left of call `t` is replaced. -/
theorem Wf.set {c : Config sys} (h : Wf c) {t : ℕ} {a : Actor τ} {p : Thread S τ ρ}
    (ht : c.pool[t]? = some (a, p)) (q : Thread S τ ρ) :
    Wf { c with pool := c.pool.set t (a, q) } := by
  have hcases : ∀ (u : ℕ) (b : Actor τ) (r : Thread S τ ρ),
      (c.pool.set t (a, q))[u]? = some (b, r) → ∃ r', c.pool[u]? = some (b, r') := by
    intro u b r hu
    rcases getElem?_set_cases hu with ⟨-, hu⟩ | ⟨rfl, he⟩
    · exact ⟨r, hu⟩
    · cases he; exact ⟨p, ht⟩
  refine ⟨fun u b r hu => ?_, fun u b r hu => ?_, fun e he => ?_, h.since, fun u hu => ?_⟩
  · obtain ⟨r', hr⟩ := hcases u b r hu
    exact h.tid u b r' hr
  · obtain ⟨r', hr⟩ := hcases u b r hu
    exact h.born u b r' hr
  · obtain ⟨r, hr⟩ := h.log e he
    exact pool_set_keeps ht hr q
  · rw [List.length_set]
    exact h.running u hu

/-- One event more, of a call of the pool that has begun. -/
theorem Wf.logged {c : Config sys} (h : Wf c) {e : Event S τ} {p : Thread S τ ρ}
    (he : c.pool[e.actor.tid]? = some (e.actor, p)) (s : sys.State) :
    Wf { c with world := ⟨s, c.world.log ++ [e]⟩ } := by
  refine ⟨h.tid, fun t a q ht => ?_, fun e' he' => ?_, fun n e' hn => ?_, h.running⟩
  · refine Nat.le_trans (h.born t a q ht) ?_
    simp
  · rcases List.mem_append.mp he' with he' | he'
    · exact h.log e' he'
    · rw [List.mem_singleton.mp he']
      exact ⟨p, he⟩
  · rcases getElem?_concat_cases hn with hn | ⟨rfl, rfl⟩
    · exact h.since n e' hn
    · exact h.born _ _ p he

/-- A new call is made. -/
theorem Wf.concat {c : Config sys} (h : Wf c) (tag : τ) (p : Thread S τ ρ) :
    Wf { c with world := c.world.start (c.fresh tag), pool := c.pool ++ [(c.fresh tag, p)] } := by
  have hpool : Wf { c with pool := c.pool ++ [(c.fresh tag, p)] } := by
    refine ⟨fun t a q ht => ?_, fun t a q ht => ?_, fun e he => ?_, h.since, fun t ht => ?_⟩
    · rcases getElem?_concat_cases ht with ht | ⟨hlen, he⟩
      · exact h.tid t a q ht
      · cases he; exact hlen.symm
    · rcases getElem?_concat_cases ht with ht | ⟨-, he⟩
      · exact h.born t a q ht
      · cases he; exact Nat.le_refl _
    · obtain ⟨q, hq⟩ := h.log e he
      exact ⟨q, (List.getElem?_append_left (List.getElem?_eq_some_iff.mp hq).1).trans hq⟩
    · rw [List.length_append]
      exact Nat.lt_add_right _ (h.running t ht)
  exact hpool.logged (e := .started (c.fresh tag)) List.getElem?_concat_length c.world.state

/-- The loop goes on with a call of the pool, or with none. -/
theorem Wf.run {c : Config sys} (h : Wf c) {r : Option ℕ}
    (hr : ∀ t, r = some t → t < c.pool.length) : Wf { c with running := r } :=
  ⟨h.tid, h.born, h.log, h.since, hr⟩

theorem Wf.step {c c' : Config sys} {l : Label τ sys.Input} (h : Wf c) (hs : c.step l = some c') :
    Wf c' := by
  cases stepped_of_step hs with
  | arrive hrun hp => exact h.concat _ _
  | @resume t a p hrun hp =>
    refine (h.set hp p).run fun u hu => ?_
    cases hu
    rw [List.length_set]
    exact (List.getElem?_eq_some_iff.mp hp).1
  | @op t a o k i r w hrun hp hf =>
    obtain ⟨s, -, rfl⟩ := World.fire_eq_some.mp hf
    have hta : a.tid = t := h.tid t a _ hp
    have hlog := h.logged (e := .ran a o r) (p := .op o k) (by rw [← hta] at hp; exact hp) s
    exact hrun ▸ hlog.set hp (k r)
  | @fork t a tag child p i hrun hp =>
    have hfresh : Config.fresh { c with pool := c.pool.set t (a, p) } tag = c.fresh tag := by
      simp [Config.fresh]
    have hfork := (h.set hp p).concat tag (.yield child)
    rw [hfresh] at hfork
    exact hrun ▸ hfork
  | pause hrun hp hs => exact h.run nofun

theorem Reaches.wf {G : Config sys → Label τ sys.Input → Prop} {c c' : Config sys} (h : Wf c)
    (hr : Reaches G c c') : Wf c' := by
  induction hr with
  | refl => exact h
  | step _ _ hs ih => exact ih.step hs

end

end CodeHive.Concurrency.Pool
