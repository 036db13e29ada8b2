import CodeHive.Api.Stores
import CodeHive.Concurrency.Interleaving

/-! # The page of executions

`routes/Executions.svelte`: a form to submit code, the rows of the executions known, and a panel
with the details of one of them. `submit` and `showDetail` are asynchronous: a task is a call of one
of them, with what is left of it, and the answers arrive in any order. `showDetail` marks its row at
once and fills the panel when its answer arrives; `poll` does both when the execution has ended. -/

namespace CodeHive.Dashboard.Executions

set_option autoImplicit false

open CodeHive.Api.Types CodeHive.Api.Stores CodeHive.Concurrency.Interleaving

/-! ### Strings -/

/-- White space and line terminators, as `trim` removes them. -/
def isSpace (c : Char) : Bool :=
  c.val ∈ [0x9, 0xA, 0xB, 0xC, 0xD, 0x20, 0xA0, 0x1680, 0x2028, 0x2029, 0x202F, 0x205F, 0x3000,
    0xFEFF] || (0x2000 ≤ c.val && c.val ≤ 0x200A)

/-- `s.trim()`. -/
def trim (s : String) : List Char :=
  ((s.toList.dropWhile isSpace).reverse.dropWhile isSpace).reverse

/-! ### The page -/

/-- Code submission payload. -/
structure ExecutionRequest where
  language : String
  code : String
  stdin : Option String
  deriving DecidableEq

/-- A call of `submit` or `showDetail`. -/
inductive Task where
  /-- `submit` waits for the answer to `POST /api/execute`. -/
  | submitting (data : ExecutionRequest)
  /-- Round `i` of `poll` waits for the answer to `GET /api/status`. -/
  | polling (id : String) (i : ℕ)
  /-- Round `i` of `poll` waits for its timer. -/
  | sleeping (id : String) (i : ℕ)
  /-- `showDetail` waits for the answer to `GET /api/status`. -/
  | showing (id : String)
  | finished
  deriving DecidableEq

/-- The state of the component, and its calls. `executions` is the store that it shows. -/
structure Page where
  language : String
  code : String
  stdin : String
  submitting : Bool
  submitError : String
  selectedId : Option String
  detailExec : Option ExecutionResult
  executions : List ExecutionResult
  tasks : List Task
  deriving DecidableEq

/-- The page when it is opened. -/
def Page.init : Page :=
  { language := "python", code := "", stdin := "", submitting := false, submitError := "",
    selectedId := none, detailExec := none, executions := [], tasks := [] }

/-- `submit`, until its first `await`. -/
def submit (s : Page) : Page :=
  if trim s.code = [] then s
  else { s with
    submitting := true
    submitError := ""
    tasks := s.tasks ++ [.submitting ⟨s.language, s.code, truthy (some s.stdin)⟩] }

/-- The rest of `submit`, given an id or what was thrown: the message of an `Error`, or something
else. -/
def submitted (s : Page) (k : ℕ) : Except (Option String) String → Page
  | .ok id => { s with
    code := ""
    stdin := ""
    submitting := false
    tasks := s.tasks.set k (.polling id 0) }
  | .error message => { s with
    submitError := message.getD "Submission failed"
    submitting := false
    tasks := s.tasks.set k .finished }

/-- `poll` goes on with the answer of round `i`; `none` where `getExecution` rejects, which `submit`
ignores. -/
def polled (s : Page) (k : ℕ) (id : String) (i : ℕ) : Option ExecutionResult → Page
  | some exec =>
    if exec.status = .completed ∨ exec.status = .failed ∨ exec.status = .timeout then
      { s with detailExec := some exec, selectedId := some id, tasks := s.tasks.set k .finished }
    else { s with tasks := s.tasks.set k (.sleeping id i) }
  | none => { s with tasks := s.tasks.set k .finished }

/-- `poll` goes on after its timer. -/
def woken (s : Page) (k : ℕ) (id : String) (i : ℕ) : Page :=
  if i + 1 < 60 then { s with tasks := s.tasks.set k (.polling id (i + 1)) }
  else { s with tasks := s.tasks.set k .finished }

/-- `showDetail`, until its `await`. -/
def showDetail (s : Page) (id : String) : Page :=
  { s with selectedId := some id, tasks := s.tasks ++ [.showing id] }

/-- The rest of `showDetail`. -/
def shown (s : Page) (k : ℕ) (response : Option ExecutionResult) : Page :=
  { s with detailExec := response, tasks := s.tasks.set k .finished }

/-- What happens to the page. Answers and timers name the task that waits for them. -/
inductive Label where
  /-- Something is typed or chosen in the form. -/
  | edit (language code stdin : String)
  /-- `loadExecutions` sets the store. -/
  | listed (items : List ExecutionResult)
  /-- Run is pressed. -/
  | submit
  | submitted (k : ℕ) (response : Except (Option String) String)
  /-- A row is clicked. -/
  | showDetail (id : String)
  /-- Close is pressed. -/
  | close
  /-- `GET /api/status` is answered, `none` where the request fails. -/
  | answered (k : ℕ) (response : Option ExecutionResult)
  | timeout (k : ℕ)
  deriving DecidableEq

/-- **One step of the page.** -/
def Page.step (s : Page) : Label → Option Page
  | .edit language code stdin => some { s with language := language, code := code, stdin := stdin }
  | .listed items => some { s with executions := items }
  | .submit => if s.submitting || trim s.code = [] then none else some (submit s)
  | .submitted k response =>
    match s.tasks[k]? with
    | some (.submitting _) => some (submitted s k response)
    | _ => none
  | .showDetail id => if id ∈ s.executions.map (·.id) then some (showDetail s id) else none
  | .close => if s.detailExec.isSome then some { s with detailExec := none } else none
  | .answered k response =>
    match s.tasks[k]? with
    | some (.polling id i) => some (polled s k id i response)
    | some (.showing _) => some (shown s k response)
    | _ => none
  | .timeout k =>
    match s.tasks[k]? with
    | some (.sleeping id i) => some (woken s k id i)
    | _ => none

/-- The execution that a task asks for. -/
def Task.asks : Task → Option String
  | .polling id _ => some id
  | .showing id => some id
  | _ => none

/-- What an answer to `GET /api/status` tells is told of the execution that was asked for. -/
def truthful (s : Page) : Label → Bool
  | .answered k response =>
    (s.tasks[k]?.bind Task.asks).all fun id => response.all fun exec => exec.id = id
  | _ => true

/-- **The page**, with whatever is done to it and in whatever order its requests are answered. -/
def page : Automaton Page Label Empty where
  step s l := if truthful s l then (s.step l).map fun s' => (s', []) else none

/-! ### The panel -/

/-- The task that sets `selectedId` in a step: of a click, or of a `poll` that ends. -/
def selection (x : Page × Label) : Option ℕ :=
  match x.2 with
  | .showDetail _ => some x.1.tasks.length
  | .answered k (some exec) =>
    match x.1.tasks[k]? with
    | some (.polling _ _) => if exec.status.terminal then some k else none
    | _ => none
  | _ => none

/-- The task of the latest selection. -/
def latest (tr : List (Page × Label)) : Option ℕ := (tr.filterMap selection).getLast?

/-- A request of the latest selection is pending. -/
def Waits (tr : List (Page × Label)) (s : Page) : Prop :=
  ∃ k ∈ latest tr, ∃ t ∈ s.tasks[k]?, t.asks.isSome

/-- **The panel shows the selected execution**, unless what was selected last is still asked for. -/
def Shows (tr : List (Page × Label)) (s : Page) : Prop :=
  ∀ exec ∈ s.detailExec, ¬ Waits tr s → s.selectedId = some exec.id

/-- **An answer that comes too late**: a click is answered when another execution is selected, and
no request of that selection is pending. -/
def Late (tr : List (Page × Label)) (x : Page × Label) : Prop :=
  ∃ k exec, x.2 = .answered k (some exec) ∧ x.1.tasks[k]? = some (.showing exec.id) ∧
    x.1.selectedId ≠ some exec.id ∧ ¬ Waits tr x.1

/-! ### What a step does -/

theorem status_ended_iff {status : Status} :
    status.terminal = true ↔ status = .completed ∨ status = .failed ∨ status = .timeout := by
  cases status <;> simp [Status.terminal]

/-- **What a step does**, where it is enabled. -/
inductive Stepped (s : Page) : Label → Page → Prop where
  | edit {language code stdin : String} :
      Stepped s (.edit language code stdin)
        { s with language := language, code := code, stdin := stdin }
  | listed {items : List ExecutionResult} : Stepped s (.listed items) { s with executions := items }
  | submit (hidle : s.submitting = false) (hcode : trim s.code ≠ []) :
      Stepped s .submit { s with
        submitting := true
        submitError := ""
        tasks := s.tasks ++ [.submitting ⟨s.language, s.code, truthy (some s.stdin)⟩] }
  | submitted {k : ℕ} {data : ExecutionRequest} {response : Except (Option String) String}
      (hk : s.tasks[k]? = some (.submitting data)) :
      Stepped s (.submitted k response) (submitted s k response)
  | showDetail {id : String} (hrow : id ∈ s.executions.map (·.id)) :
      Stepped s (.showDetail id) (showDetail s id)
  | close (hshown : s.detailExec.isSome) : Stepped s .close { s with detailExec := none }
  | polled {k : ℕ} {id : String} {i : ℕ} {response : Option ExecutionResult}
      (hk : s.tasks[k]? = some (.polling id i)) :
      Stepped s (.answered k response) (polled s k id i response)
  | shown {k : ℕ} {id : String} {response : Option ExecutionResult}
      (hk : s.tasks[k]? = some (.showing id)) : Stepped s (.answered k response) (shown s k response)
  | timeout {k : ℕ} {id : String} {i : ℕ} (hk : s.tasks[k]? = some (.sleeping id i)) :
      Stepped s (.timeout k) (woken s k id i)

theorem stepped_of_step {s s' : Page} {l : Label} (h : s.step l = some s') : Stepped s l s' := by
  cases l with
  | edit language code stdin =>
    cases h
    exact .edit
  | listed items =>
    cases h
    exact .listed
  | submit =>
    simp only [Page.step] at h
    split_ifs at h with hdisabled
    cases h
    obtain ⟨hidle, hcode⟩ : s.submitting = false ∧ ¬ trim s.code = [] := by simpa using hdisabled
    rw [submit, if_neg hcode]
    exact .submit hidle hcode
  | submitted k response =>
    simp only [Page.step] at h
    split at h
    · next hk =>
      cases h
      exact .submitted hk
    · cases h
  | showDetail id =>
    simp only [Page.step] at h
    split_ifs at h with hrow
    cases h
    exact .showDetail hrow
  | close =>
    simp only [Page.step] at h
    split_ifs at h with hshown
    cases h
    exact .close hshown
  | answered k response =>
    simp only [Page.step] at h
    split at h
    · next hk =>
      cases h
      exact .polled hk
    · next hk =>
      cases h
      exact .shown hk
    · cases h
  | timeout k =>
    simp only [Page.step] at h
    split at h
    · next hk =>
      cases h
      exact .timeout hk
    · cases h

/-- The task that a label is about. -/
def concerns : Label → Option ℕ
  | .submitted k _ => some k
  | .answered k _ => some k
  | .timeout k => some k
  | _ => none

section
variable {s s' : Page} {l : Label} {k : ℕ} {t : Task}

theorem tasks_submitted (s : Page) (k : ℕ) (response : Except (Option String) String) :
    ∃ t, (submitted s k response).tasks = s.tasks.set k t := by
  cases response with
  | ok id => exact ⟨_, rfl⟩
  | error message => exact ⟨_, rfl⟩

theorem tasks_polled (s : Page) (k : ℕ) (id : String) (i : ℕ) (response : Option ExecutionResult) :
    ∃ t, (polled s k id i response).tasks = s.tasks.set k t := by
  unfold polled
  split
  · split_ifs
    · exact ⟨_, rfl⟩
    · exact ⟨_, rfl⟩
  · exact ⟨_, rfl⟩

theorem tasks_woken (s : Page) (k : ℕ) (id : String) (i : ℕ) :
    ∃ t, (woken s k id i).tasks = s.tasks.set k t := by
  unfold woken
  split_ifs
  · exact ⟨_, rfl⟩
  · exact ⟨_, rfl⟩

/-- At most one task begins or goes on. -/
theorem Stepped.tasks (h : Stepped s l s') : s'.tasks = s.tasks ∨
    (∃ t, s'.tasks = s.tasks ++ [t]) ∨
    ∃ k t, concerns l = some k ∧ s'.tasks = s.tasks.set k t := by
  cases h with
  | edit => exact Or.inl rfl
  | listed => exact Or.inl rfl
  | close _ => exact Or.inl rfl
  | submit _ _ => exact Or.inr (Or.inl ⟨_, rfl⟩)
  | showDetail _ => exact Or.inr (Or.inl ⟨_, rfl⟩)
  | submitted _ =>
    obtain ⟨t, ht⟩ := tasks_submitted ..
    exact Or.inr (Or.inr ⟨_, t, rfl, ht⟩)
  | polled _ =>
    obtain ⟨t, ht⟩ := tasks_polled ..
    exact Or.inr (Or.inr ⟨_, t, rfl, ht⟩)
  | shown _ => exact Or.inr (Or.inr ⟨_, _, rfl, rfl⟩)
  | timeout _ =>
    obtain ⟨t, ht⟩ := tasks_woken ..
    exact Or.inr (Or.inr ⟨_, t, rfl, ht⟩)

/-- The tasks that a step is not about are as they were. -/
theorem Stepped.frame (h : Stepped s l s') (hk : s.tasks[k]? = some t)
    (hl : concerns l ≠ some k) : s'.tasks[k]? = some t := by
  rcases h.tasks with heq | ⟨t', heq⟩ | ⟨k', t', hl', heq⟩
  · rw [heq, hk]
  · rw [heq, List.getElem?_append_left (List.getElem?_eq_some_iff.mp hk).1, hk]
  · have hne : k' ≠ k := by
      rintro rfl
      exact hl hl'
    rw [heq, List.getElem?_set_ne hne, hk]

/-- A call of `submit` that is not over. -/
def Task.submits : Task → Bool
  | .submitting _ => true
  | .polling _ _ => true
  | .sleeping _ _ => true
  | _ => false

/-- The other tasks are as they were. -/
def Stays (s s' : Page) : Prop :=
  ∀ (k : ℕ) (t : Task), s.tasks[k]? = some t → t.submits = false → s'.tasks[k]? = some t

/-- A call of `submit` begins or goes on, if any. -/
theorem Stepped.stays (h : Stepped s l s')
    (hl : ∀ k, concerns l = some k → ∃ t, s.tasks[k]? = some t ∧ t.submits = true) :
    Stays s s' := by
  intro k t hk ht
  refine h.frame hk fun hc => ?_
  obtain ⟨t', hk', ht'⟩ := hl k hc
  rw [hk] at hk'
  cases hk'
  rw [ht] at ht'
  cases ht'

end

/-- **What a step can do** with the row selected and the panel. -/
inductive Move (s : Page) : Label → Page → Prop where
  /-- Nothing is selected, and nothing is put into the panel. -/
  | quiet {l : Label} {s' : Page} (hl : selection (s, l) = none)
      (hk : ∀ k response, l = .answered k response → ∃ id i, s.tasks[k]? = some (.polling id i))
      (hid : s'.selectedId = s.selectedId) (hexec : ∀ exec ∈ s'.detailExec, exec ∈ s.detailExec)
      (hs : Stays s s') : Move s l s'
  | click {id : String} : Move s (.showDetail id) (showDetail s id)
  | shown {k : ℕ} {id : String} {response : Option ExecutionResult}
      (hk : s.tasks[k]? = some (.showing id)) (hid : ∀ exec ∈ response, exec.id = id) :
      Move s (.answered k response) (shown s k response)
  | polled {k : ℕ} {id : String} {i : ℕ} {exec : ExecutionResult}
      (hk : s.tasks[k]? = some (.polling id i)) (hend : exec.status.terminal = true)
      (hid : exec.id = id) :
      Move s (.answered k (some exec))
        { s with detailExec := some exec, selectedId := some id, tasks := s.tasks.set k .finished }

theorem truthful_failed (s : Page) (k : ℕ) : truthful s (.answered k none) = true := by
  cases hasks : s.tasks[k]?.bind Task.asks <;> simp [truthful, hasks]

theorem truthful_answered {s : Page} {k : ℕ} {t : Task} {id : String}
    {response : Option ExecutionResult} (hk : s.tasks[k]? = some t) (ht : t.asks = some id)
    (h : truthful s (.answered k response) = true) : ∀ exec ∈ response, exec.id = id := by
  rintro exec rfl
  simpa [truthful, hk, ht] using h

theorem Stepped.move {s s' : Page} {l : Label} (h : Stepped s l s') (htrue : truthful s l = true) :
    Move s l s' := by
  have hstays := h.stays
  cases h with
  | edit => exact .quiet rfl (by simp) rfl (fun _ he => he) (hstays (by simp [concerns]))
  | listed => exact .quiet rfl (by simp) rfl (fun _ he => he) (hstays (by simp [concerns]))
  | submit _ _ => exact .quiet rfl (by simp) rfl (fun _ he => he) (hstays (by simp [concerns]))
  | close _ => exact .quiet rfl (by simp) rfl (by simp) (hstays (by simp [concerns]))
  | showDetail _ => exact .click
  | @submitted k data response hk =>
    have hs := hstays fun k' hk' => ⟨_, Option.some.inj hk' ▸ hk, rfl⟩
    cases response with
    | ok id => exact .quiet rfl (by simp) rfl (fun _ he => he) hs
    | error message => exact .quiet rfl (by simp) rfl (fun _ he => he) hs
  | @polled k id i response hk =>
    have hs := hstays fun k' hk' => ⟨_, Option.some.inj hk' ▸ hk, rfl⟩
    have hpolling : ∀ k' response', Label.answered k response = .answered k' response' →
        ∃ id i, s.tasks[k']? = some (.polling id i) := by
      rintro k' response' ⟨⟩
      exact ⟨id, i, hk⟩
    cases response with
    | none => exact .quiet rfl hpolling rfl (fun _ he => he) hs
    | some exec =>
      by_cases hend : exec.status.terminal = true
      · rw [Executions.polled, if_pos (status_ended_iff.mp hend)]
        exact .polled hk hend (truthful_answered hk rfl htrue exec rfl)
      · have hl : selection (s, .answered k (some exec)) = none := by
          simp [selection, hk, hend]
        rw [Executions.polled, if_neg (mt status_ended_iff.mpr hend)] at hs ⊢
        exact .quiet hl hpolling rfl (fun _ he => he) hs
  | shown hk => exact .shown hk (truthful_answered hk rfl htrue)
  | @timeout k id i hk =>
    have hs := hstays fun k' hk' => ⟨_, Option.some.inj hk' ▸ hk, rfl⟩
    unfold woken at hs ⊢
    split_ifs at hs ⊢
    · exact .quiet rfl (by simp) rfl (fun _ he => he) hs
    · exact .quiet rfl (by simp) rfl (fun _ he => he) hs

/-! ### The latest selection -/

theorem latest_concat {tr : List (Page × Label)} {x : Page × Label} :
    latest (tr ++ [x]) = (selection x).or (latest tr) := by
  unfold latest
  rw [List.filterMap_append, List.getLast?_append]
  cases h : selection x <;> simp [h]

/-- What the run so far says of the task of the latest selection: it is over, or it is a click that
is not answered, and its row is still selected. -/
def Tracked (tr : List (Page × Label)) (s : Page) : Prop :=
  ∀ k ∈ latest tr, s.tasks[k]? = some .finished ∨
    ∃ id, s.tasks[k]? = some (.showing id) ∧ s.selectedId = some id

section
variable {tr : List (Page × Label)} {s s' : Page} {l : Label}

theorem waits_congr {x : Page × Label} (hx : selection x = none)
    (h : ∀ k ∈ latest tr, s'.tasks[k]? = s.tasks[k]?) : Waits (tr ++ [x]) s' ↔ Waits tr s := by
  unfold Waits
  rw [latest_concat, hx, Option.none_or]
  refine exists_congr fun k => and_congr_right fun hk => ?_
  rw [h k hk]

theorem Tracked.stays (ht : Tracked tr s) (hs : Stays s s') :
    ∀ k ∈ latest tr, s'.tasks[k]? = s.tasks[k]? := by
  intro k hk
  rcases ht k hk with hover | ⟨id, hshowing, -⟩
  · rw [hover, hs k _ hover rfl]
  · rw [hshowing, hs k _ hshowing rfl]

theorem tracked_step (ht : Tracked tr s) (hm : Move s l s') : Tracked (tr ++ [(s, l)]) s' := by
  intro k hk
  rw [latest_concat] at hk
  cases hm with
  | quiet hl _ hid _ hs =>
    rw [hl, Option.none_or] at hk
    rw [ht.stays hs k hk, hid]
    exact ht k hk
  | @click id =>
    obtain rfl : s.tasks.length = k := Option.some.inj hk
    exact Or.inr ⟨id, by simp [showDetail], rfl⟩
  | @shown k' id response hshowing _ =>
    have hnone : selection (s, .answered k' response) = none := by
      cases response <;> simp [selection, hshowing]
    rw [hnone, Option.none_or] at hk
    rw [shown]
    by_cases hkk : k' = k
    · subst hkk
      exact Or.inl (List.getElem?_set_self' ▸ by rw [hshowing]; rfl)
    · rw [List.getElem?_set_ne hkk]
      exact ht k hk
  | @polled k' id i exec hpolling hend _ =>
    have hsome : selection (s, .answered k' (some exec)) = some k' := by
      simp [selection, hpolling, hend]
    rw [hsome] at hk
    obtain rfl : k' = k := Option.some.inj hk
    exact Or.inl (List.getElem?_set_self' ▸ by rw [hpolling]; rfl)

theorem not_late (h : ∀ k exec, l = .answered k (some exec) →
    s.tasks[k]? ≠ some (.showing exec.id)) : ¬ Late tr (s, l) := by
  rintro ⟨k, exec, hl, hk, -⟩
  exact h k exec hl hk

theorem late_iff {k : ℕ} {exec : ExecutionResult} (hk : s.tasks[k]? = some (.showing exec.id)) :
    Late tr (s, .answered k (some exec)) ↔ s.selectedId ≠ some exec.id ∧ ¬ Waits tr s := by
  constructor
  · rintro ⟨_, _, heq, -, hlate⟩
    cases heq
    exact hlate
  · exact fun hlate => ⟨k, exec, rfl, hk, hlate⟩

/-- A click whose row is no longer selected is not the latest selection. -/
theorem Tracked.waits_shown (ht : Tracked tr s) {k : ℕ} {id : String}
    {response : Option ExecutionResult} (hk : s.tasks[k]? = some (.showing id))
    (hsel : s.selectedId ≠ some id) :
    Waits (tr ++ [(s, .answered k response)]) (shown s k response) ↔ Waits tr s := by
  have hnone : selection (s, .answered k response) = none := by
    cases response <;> simp [selection, hk]
  refine waits_congr hnone fun k' hk' => List.getElem?_set_ne ?_
  rintro rfl
  rcases ht k hk' with hover | ⟨id', hshowing, hrow⟩
  · rw [hk] at hover
    cases hover
  · rw [hk] at hshowing
    cases hshowing
    exact hsel hrow

/-- A click is answered. -/
theorem shows_shown (ht : Tracked tr s) {k : ℕ} {exec : ExecutionResult}
    (hk : s.tasks[k]? = some (.showing exec.id)) :
    Shows (tr ++ [(s, .answered k (some exec))]) (shown s k (some exec)) ↔
      ¬ Late tr (s, .answered k (some exec)) := by
  rw [late_iff hk]
  by_cases hsel : s.selectedId = some exec.id
  · refine iff_of_true (fun _ he _ => ?_) fun hlate => hlate.1 hsel
    cases he
    exact hsel
  · have hwaits : Waits (tr ++ [(s, .answered k (some exec))]) (shown s k (some exec)) ↔
        Waits tr s := ht.waits_shown hk hsel
    constructor
    · rintro hshows ⟨-, hnot⟩
      exact hsel (hshows exec rfl (mt hwaits.mp hnot))
    · intro hlate _ _ hnot
      exact absurd ⟨hsel, mt hwaits.mpr hnot⟩ hlate

/-- **A late answer** is what makes the panel show another execution. -/
theorem shows_step (ht : Tracked tr s) (hgood : Shows tr s) (hm : Move s l s') :
    Shows (tr ++ [(s, l)]) s' ↔ ¬ Late tr (s, l) := by
  cases hm with
  | quiet hl hk hid hexec hs =>
    refine iff_of_true (fun exec he hwaits => ?_) (not_late fun k exec heq hshowing => ?_)
    · rw [waits_congr hl (ht.stays hs)] at hwaits
      exact hid.trans (hgood exec (hexec exec he) hwaits)
    · obtain ⟨id, i, hpolling⟩ := hk k _ heq
      rw [hshowing] at hpolling
      cases hpolling
  | @click id =>
    have hwaits : Waits (tr ++ [(s, .showDetail id)]) (showDetail s id) := by
      refine ⟨s.tasks.length, ?_, .showing id, by simp [showDetail], rfl⟩
      rw [latest_concat]
      rfl
    exact iff_of_true (fun _ _ hnot => absurd hwaits hnot) (not_late (by simp))
  | @shown k id response hshowing hid =>
    cases response with
    | none => exact iff_of_true (fun _ he => by cases he) (not_late (by simp))
    | some exec =>
      obtain rfl : exec.id = id := hid exec rfl
      exact shows_shown ht hshowing
  | @polled k id i exec hpolling hend hid =>
    refine iff_of_true (fun exec' he _ => ?_) (not_late fun k' exec' heq hshowing => ?_)
    · cases he
      exact congrArg some hid.symm
    · cases heq
      rw [hpolling] at hshowing
      cases hshowing

end

/-! ### Runs of the page -/

section
variable {tr : List (Page × Label)} {s : Page}

theorem move_of_page {s' : Page} {l : Label} {new : List Empty}
    (h : page.step s l = some (s', new)) : Move s l s' := by
  simp only [page] at h
  split_ifs at h with htrue
  obtain ⟨s₁, hs₁, heq⟩ := Option.map_eq_some_iff.mp h
  cases heq
  exact (stepped_of_step hs₁).move htrue

theorem tracked (h : Steps page .init tr s) : Tracked tr s := by
  refine h.keeps (fun k hk => ?_) fun tr s l s' new _ ht hs => ?_
  · cases hk
  · exact tracked_step ht (move_of_page hs)

/-- **The panel shows the selected execution all along a run** exactly when no answer comes too
late. -/
theorem panel_iff (h : Steps page .init tr s) :
    Throughout Shows tr s ↔ Each (fun tr x => ¬ Late tr x) tr := by
  refine h.throughout_iff_each (fun _ he => ?_) fun tr s l s' new hs hgood hstep => ?_
  · cases he
  · exact shows_step (tracked hs) hgood (move_of_page hstep)

end

/-- A completed execution. -/
def completed (id : String) : ExecutionResult :=
  { id := id, status := .completed, stdout := "1\n", stderr := "", exitCode := some 0,
    language := none, startedAt := none, finishedAt := none, error := none, durationMs := none }

/-- **Two rows are clicked**, and the answer to the first click comes last. -/
theorem answers_crossed : ∃ tr s, Steps page .init tr s ∧ s.selectedId = some "b" ∧
    s.detailExec = some (completed "a") ∧ ¬ Waits tr s := by
  have hrun : Steps page .init _ _ :=
    Steps.refl
    |>.step (l := .listed [completed "a", completed "b"]) rfl
    |>.step (l := .showDetail "a") rfl
    |>.step (l := .showDetail "b") rfl
    |>.step (l := .answered 1 (some (completed "b"))) rfl
    |>.step (l := .answered 0 (some (completed "a"))) rfl
  refine ⟨_, _, hrun, rfl, rfl, ?_⟩
  rintro ⟨k, hk, t, ht, hasking⟩
  obtain rfl : 1 = k := Option.some.inj hk
  cases ht
  cases hasking

theorem panel_wrong : ¬ ∀ (tr : List (Page × Label)) (s : Page), Steps page .init tr s →
    Throughout Shows tr s := by
  intro h
  obtain ⟨tr, s, hrun, hsel, hexec, hwaits⟩ := answers_crossed
  have hshows := (h tr s hrun).1 _ hexec hwaits
  rw [hsel] at hshows
  exact absurd hshows (by decide)

/-- The same with the answers in order: the first arrives while the second is awaited. -/
theorem answers_in_order : ∃ tr s, Steps page .init tr s ∧ s.selectedId = some "b" ∧
    s.detailExec = some (completed "b") ∧ Throughout Shows tr s := by
  have hrun : Steps page .init _ _ :=
    Steps.refl
    |>.step (l := .listed [completed "a", completed "b"]) rfl
    |>.step (l := .showDetail "a") rfl
    |>.step (l := .showDetail "b") rfl
    |>.step (l := .answered 0 (some (completed "a"))) rfl
    |>.step (l := .answered 1 (some (completed "b"))) rfl
  refine ⟨_, _, hrun, rfl, rfl, (panel_iff hrun).mpr ?_⟩
  refine each_concat.mpr ⟨each_concat.mpr ⟨each_concat.mpr ⟨each_concat.mpr ⟨each_concat.mpr
    ⟨each_nil, ?_⟩, ?_⟩, ?_⟩, ?_⟩, ?_⟩
  all_goals rintro ⟨k, exec, heq, -, hsel, hwaits⟩
  · cases heq
  · cases heq
  · cases heq
  · cases heq
    exact hwaits ⟨1, rfl, .showing "b", rfl, rfl⟩
  · cases heq
    exact hsel rfl

end CodeHive.Dashboard.Executions
