import TaskTree.LogEntry
import TaskTree.Node.Equality
import TaskTree.Proofs.Node.Frame
import TaskTree.Proofs.Value.Equality

/-!
# Equal values are understood alike

A look-up takes the first entry under a key, and the fragment of an error is cut out
of the value as it stands, so the order of entries could show.  It does not: of
equal regular values the steps are alike and the frames are alike, and therefore
either both are understood, as equal nodes, or both are refused for the same
reason, with equal fragments.

**Results.**
* `Value.steps_alike`, `Value.frame_alike`: equal values are taken apart into the same.
* `Node.ofValue_alike`, `LogEntry.ofValue_alike`: and so they are understood alike.
-/

namespace TaskTree

section Lookup

theorem Value.beq_keyword
    (key : Value) (name : String) :
    (key == .keyword name) = key.isKeyword name := by
  rw [Bool.eq_iff_iff, Value.isKeyword_iff, Value.beq_iff_alike]
  constructor
  · rintro ⟨⟩
    rfl
  · rintro rfl
    exact .keyword name

/-- The value of a keyword is what is found under it. -/
theorem Entries.keyword?_eq_get?
    (entries : Entries) (name : String) :
    entries.keyword? name = entries.get? (.keyword name) := by
  induction entries with
  | nil => rfl
  | cons e entries ih => simp only [keyword?, get?, Value.beq_keyword, ih]

theorem Entries.of_keyword?_eq_some
    {S : Value → Prop} {entries : Entries} {name : String} {value : Value}
    (hentries : ∀ e ∈ entries, S e.1 ∧ S e.2)
    (h : entries.keyword? name = some value) :
    S value :=
  of_get?_eq_some hentries (entries.keyword?_eq_get? name ▸ h)

end Lookup

/-- Two errors of the same kind, at equal values. -/
def ParseError.Alike (e e' : ParseError) : Prop :=
  e.fault = e'.fault ∧ (e.fragment == e'.fragment) = true

namespace Value

/-- Two equal regular values, the first of less than the given size. -/
structure EqualBelow (n : Nat) (v w : Value) : Prop where
  left : v.Regular
  right : w.Regular
  equal : (v == w) = true
  size : sizeOf v < n

section Names

variable {v w : Value} (h : (v == w) = true)
include h

/-- Equal values name the same reference, if any. -/
theorem ofValue?_congr :
    Symbol.ofValue? v = Symbol.ofValue? w := by
  cases beq_iff_alike.1 h <;> rfl

theorem ofHead?_congr :
    SpecialForm.ofHead? v = SpecialForm.ofHead? w := by
  cases beq_iff_alike.1 h <;> rfl

theorem isKeyword_congr
    (name : String) :
    v.isKeyword name = w.isKeyword name := by
  cases beq_iff_alike.1 h <;> rfl

end Names

section EqualBelow

variable {n : Nat} {v w : Value}

theorem EqualBelow.mono
    {m : Nat}
    (h : EqualBelow m v w)
    (hle : m ≤ n) :
    EqualBelow n v w :=
  ⟨h.left, h.right, h.equal, lt_of_lt_of_le h.size hle⟩

theorem equalBelow_items
    {as bs : List Value}
    (ha : ∀ a ∈ as, a.Regular ∧ sizeOf a < n)
    (hb : ∀ b ∈ bs, b.Regular)
    (h : List.Forall₂ (fun a b => (a == b) = true) as bs) :
    List.Forall₂ (EqualBelow n) as bs := by
  induction h with
  | nil => exact .nil
  | cons hhead _ ih =>
      obtain ⟨⟨ha, hsize⟩, has⟩ := List.forall_mem_cons.1 ha
      obtain ⟨hb, hbs⟩ := List.forall_mem_cons.1 hb
      exact .cons ⟨ha, hb, hhead, hsize⟩ (ih has hbs)

theorem EqualBelow.parts_regular
    (h : EqualBelow (n + 1) v w) :
    (∀ part ∈ v.parts, part.Regular ∧ sizeOf part < n) ∧ ∀ part ∈ w.parts, part.Regular := by
  constructor
  · intro part hpart
    have hlt := sizeOf_lt_of_mem_parts hpart
    exact ⟨(everywhere_iff.1 h.left).2 part hpart, lt_of_lt_of_le hlt (Nat.le_of_lt_succ h.size)⟩
  · exact (everywhere_iff.1 h.right).2

/-- A vector equals vectors only, and their items are equal. -/
theorem EqualBelow.of_vector_left
    {as : List Value}
    (h : EqualBelow n (.vector as) w) :
    ∃ bs, w = .vector bs ∧ List.Forall₂ (EqualBelow n) as bs := by
  obtain ⟨ha, hb⟩ := (h.mono (Nat.le_succ n)).parts_regular
  cases beq_iff_alike.1 h.equal with
  | vector items => exact ⟨_, rfl, equalBelow_items ha hb items⟩

theorem EqualBelow.of_vector_right
    {bs : List Value}
    (h : EqualBelow n v (.vector bs)) :
    ∃ as, v = .vector as ∧ List.Forall₂ (EqualBelow n) as bs := by
  cases beq_iff_alike.1 h.equal with
  | vector items =>
      obtain ⟨_, ⟨⟩, hitems⟩ := h.of_vector_left
      exact ⟨_, rfl, hitems⟩

end EqualBelow

theorem EqualBelow.ofValues?_eq
    {n : Nat} {as bs : List Value}
    (h : List.Forall₂ (EqualBelow n) as bs) :
    Symbol.ofValues? as = Symbol.ofValues? bs := by
  induction h with
  | nil => rfl
  | cons hhead _ ih => simp only [Symbol.ofValues?, ofValue?_congr hhead.equal, ih]

section Steps

variable {n : Nat}

/-- Arguments in the same places are equal. -/
inductive ArgumentsAlike (n : Nat) : Arguments → Arguments → Prop
  | expressions
      {body body' : List Value}
      (exprs : List.Forall₂ (EqualBelow n) body body') :
      ArgumentsAlike n (.expressions body) (.expressions body')
  | names
      {ids ids' : List Value}
      (names : List.Forall₂ (EqualBelow n) ids ids') :
      ArgumentsAlike n (.names ids) (.names ids')
  | named
      {name name' expr expr' : Value}
      (same : EqualBelow n name name')
      (exprs : EqualBelow n expr expr') :
      ArgumentsAlike n (.named name expr) (.named name' expr')
  | flat
      {group group' body body' : List Value}
      (bindings : List.Forall₂ (EqualBelow n) group group')
      (exprs : List.Forall₂ (EqualBelow n) body body') :
      ArgumentsAlike n (.flat group body) (.flat group' body')
  | paired
      {group group' : List Value}
      (bindings : List.Forall₂ (EqualBelow n) group group') :
      ArgumentsAlike n (.paired group) (.paired group')
  | params
      {ids ids' body body' : List Value}
      (names : List.Forall₂ (EqualBelow n) ids ids')
      (exprs : List.Forall₂ (EqualBelow n) body body') :
      ArgumentsAlike n (.params ids body) (.params ids' body')

/-- Equal arguments of a special form are arranged alike. -/
theorem arrange?_alike
    (form : SpecialForm) {as bs : List Value}
    (h : List.Forall₂ (EqualBelow n) as bs) :
    Option.Rel (ArgumentsAlike n) (form.arrange? as) (form.arrange? bs) := by
  fun_cases SpecialForm.arrange? form as with
  | case1 => exact .some (.expressions h)
  | case2 => exact .some (.names h)
  | case3 target value =>
      obtain _ | ⟨htarget, _ | ⟨hvalue, _ | _⟩⟩ := h
      exact .some (.named htarget hvalue)
  | case4 group body heven =>
      obtain _ | ⟨hvector, hbody⟩ := h
      obtain ⟨group', rfl, hgroup⟩ := hvector.of_vector_left
      rw [SpecialForm.arrange?, ← hgroup.length_eq, if_pos heven]
      exact .some (.flat hgroup hbody)
  | case5 group body hodd =>
      obtain _ | ⟨hvector, hbody⟩ := h
      obtain ⟨group', rfl, hgroup⟩ := hvector.of_vector_left
      rw [SpecialForm.arrange?, ← hgroup.length_eq, if_neg hodd]
      exact .none
  | case6 condition thenBranch elseBranch =>
      obtain _ | ⟨hc, _ | ⟨ht, _ | ⟨he, _ | _⟩⟩⟩ := h
      exact .some (.expressions (.cons hc (.cons ht (.cons he .nil))))
  | case7 params body =>
      obtain _ | ⟨hvector, hbody⟩ := h
      obtain ⟨params', rfl, hparams⟩ := hvector.of_vector_left
      exact .some (.params hparams hbody)
  | case8 group =>
      obtain _ | ⟨hvector, _ | _⟩ := h
      obtain ⟨group', rfl, hgroup⟩ := hvector.of_vector_left
      exact .some (.paired hgroup)
  | case9 marker id expr hid =>
      obtain _ | ⟨hmarker, _ | ⟨hname, _ | ⟨hexpr, _ | _⟩⟩⟩ := h
      rw [SpecialForm.arrange?, ← isKeyword_congr hmarker.equal, if_pos hid]
      exact .some (.named hname hexpr)
  | case10 marker id expr hid =>
      obtain _ | ⟨hmarker, _ | ⟨hname, _ | ⟨hexpr, _ | _⟩⟩⟩ := h
      rw [SpecialForm.arrange?, ← isKeyword_congr hmarker.equal, if_neg hid]
      exact .none
  | case11 _ _ hsequence hjoin hdefinition hlet hconditional hfunction hparallel hlogStep =>
      -- what has no place on one side has none on the other
      rw [SpecialForm.arrange?.eq_9]
      · exact .none
      · exact hsequence
      · exact hjoin
      · rintro target value hform rfl
        obtain _ | ⟨_, _ | ⟨_, _ | _⟩⟩ := h
        exact hdefinition _ _ hform rfl
      · rintro group body hform rfl
        obtain _ | ⟨hvector, _⟩ := h
        obtain ⟨_, rfl, _⟩ := hvector.of_vector_right
        exact hlet _ _ hform rfl
      · rintro condition thenBranch elseBranch hform rfl
        obtain _ | ⟨_, _ | ⟨_, _ | ⟨_, _ | _⟩⟩⟩ := h
        exact hconditional _ _ _ hform rfl
      · rintro params body hform rfl
        obtain _ | ⟨hvector, _⟩ := h
        obtain ⟨_, rfl, _⟩ := hvector.of_vector_right
        exact hfunction _ _ hform rfl
      · rintro group hform rfl
        obtain _ | ⟨hvector, _ | _⟩ := h
        obtain ⟨_, rfl, _⟩ := hvector.of_vector_right
        exact hparallel _ hform rfl
      · rintro marker id expr hform rfl
        obtain _ | ⟨_, _ | ⟨_, _ | ⟨_, _ | _⟩⟩⟩ := h
        exact hlogStep _ _ _ hform rfl

/-- Both steps refuse alike, or both go on with equal values. -/
abbrev StepAlike (n : Nat) : Step → Step → Prop :=
  Corresponds ParseError.Alike (EqualBelow n)

theorem expressions_alike
    {as bs : List Value}
    (h : List.Forall₂ (EqualBelow n) as bs) :
    List.Forall₂ (StepAlike n) (as.map .ok) (bs.map .ok) :=
  List.forall₂_map_left_iff.2 (List.forall₂_map_right_iff.2 (h.imp fun _ _ => .ok))

variable {refusal refusal' : ParseError} (hrefusal : refusal.Alike refusal')
include hrefusal

theorem flatSteps_alike
    {as bs : List Value}
    (h : List.Forall₂ (EqualBelow n) as bs) :
    List.Forall₂ (StepAlike n) (flatSteps refusal as) (flatSteps refusal' bs) ∧
      flatNames as = flatNames bs := by
  fun_induction flatNames as generalizing bs with
  | case1 name expr rest ih =>
      obtain _ | ⟨hname, _ | ⟨hexpr, hrest⟩⟩ := h
      obtain ⟨hsteps, hnames⟩ := ih hrest
      simp only [flatSteps, flatNames, ← ofValue?_congr hname.equal, hnames, and_true]
      cases Symbol.ofValue? name with
      | some target => exact .cons (.ok hexpr) hsteps
      | none => exact .cons (.error hrefusal) .nil
  | case2 as has =>
      have hbs : ∀ name expr rest, bs = name :: expr :: rest → False := by
        rintro name expr rest rfl
        obtain _ | ⟨_, _ | ⟨_, _⟩⟩ := h
        exact has _ _ _ rfl
      rw [flatSteps.eq_2 _ _ has, flatSteps.eq_2 _ _ hbs, flatNames.eq_2 _ hbs]
      exact ⟨.nil, rfl⟩

theorem pairedSteps_alike
    {as bs : List Value}
    (h : List.Forall₂ (EqualBelow n) as bs) :
    List.Forall₂ (StepAlike n) (pairedSteps refusal as) (pairedSteps refusal' bs) ∧
      pairedNames as = pairedNames bs := by
  fun_induction pairedNames as generalizing bs with
  | case1 name expr rest ih =>
      obtain _ | ⟨hitem, hrest⟩ := h
      obtain ⟨_, rfl, _ | ⟨hname, _ | ⟨hexpr, _ | _⟩⟩⟩ := hitem.of_vector_left
      obtain ⟨hsteps, hnames⟩ := ih hrest
      simp only [pairedSteps, pairedNames, ← ofValue?_congr hname.equal, hnames, and_true]
      cases Symbol.ofValue? name with
      | some target => exact .cons (.ok hexpr) hsteps
      | none => exact .cons (.error hrefusal) .nil
  | case2 as has =>
      obtain _ | ⟨hitem, hrest⟩ := h
      · exact ⟨.nil, rfl⟩
      · next item item' rest rest' =>
        have hitem' : ∀ name expr, item' = .vector [name, expr] → False := by
          rintro name expr rfl
          obtain ⟨_, rfl, _ | ⟨_, _ | ⟨_, _ | _⟩⟩⟩ := hitem.of_vector_right
          exact has _ _ _ rfl
        have hitem : ∀ name expr, item = .vector [name, expr] → False :=
          fun name expr h => has name expr rest (h ▸ rfl)
        rw [pairedSteps.eq_3 _ _ _ hitem, pairedSteps.eq_3 _ _ _ hitem', pairedNames.eq_2]
        · exact ⟨.cons (.error hrefusal) .nil, rfl⟩
        · rintro name expr rest h
          exact hitem' name expr (List.cons.inj h).1

/-- Arranged arguments are taken apart alike. -/
theorem arguments_alike
    {a b : Arguments}
    (h : ArgumentsAlike n a b) :
    List.Forall₂ (StepAlike n) (a.steps refusal) (b.steps refusal') ∧ a.given = b.given := by
  have hrefused : List.Forall₂ (StepAlike n) [.error refusal] [.error refusal'] :=
    .cons (.error hrefusal) .nil
  cases h with
  | expressions exprs => exact ⟨expressions_alike exprs, rfl⟩
  | @names ids ids' names =>
      simp only [Arguments.steps, Arguments.given, ← EqualBelow.ofValues?_eq names, and_true]
      cases Symbol.ofValues? ids with
      | some names => exact .nil
      | none => exact hrefused
  | @named name name' expr expr' same exprs =>
      simp only [Arguments.steps, Arguments.given, ← ofValue?_congr same.equal, and_true]
      cases Symbol.ofValue? name with
      | some target => exact .cons (.ok exprs) .nil
      | none => exact hrefused
  | flat bindings exprs =>
      obtain ⟨hsteps, hnames⟩ := flatSteps_alike hrefusal bindings
      exact ⟨List.rel_append hsteps (expressions_alike exprs), hnames⟩
  | paired bindings => exact pairedSteps_alike hrefusal bindings
  | @params ids ids' body body' names exprs =>
      simp only [Arguments.steps, Arguments.given, ← EqualBelow.ofValues?_eq names, and_true]
      cases Symbol.ofValues? ids with
      | some names => exact expressions_alike exprs
      | none => exact hrefused

/-- The arguments of a special form are taken apart alike. -/
theorem form_alike
    (form : SpecialForm) {args args' : List Value}
    (hargs : List.Forall₂ (EqualBelow n) args args') :
    List.Forall₂ (StepAlike n) (form.steps refusal args) (form.steps refusal' args') ∧
      form.names args = form.names args' := by
  have harranged := arrange?_alike form hargs
  rw [SpecialForm.steps, SpecialForm.steps, SpecialForm.names, SpecialForm.names]
  generalize form.arrange? args = arguments at harranged ⊢
  generalize form.arrange? args' = arguments' at harranged ⊢
  cases harranged with
  | some related => exact arguments_alike hrefusal related
  | none => exact ⟨.cons (.error hrefusal) .nil, rfl⟩

end Steps

end Value

section Maps

namespace Entries

variable {a b : Entries}
  (ha : Value.Regular (.map a)) (hb : Value.Regular (.map b))
  (h : (Value.map a == Value.map b) = true)
include ha hb h

theorem keyword?_alike
    (name : String) :
    Option.Rel (fun v w => (v == w) = true) (a.keyword? name) (b.keyword? name) := by
  obtain ⟨hdistinct, ha⟩ := Value.regular_map.1 ha
  obtain ⟨hdistinct', hb⟩ := Value.regular_map.1 hb
  rw [keyword?_eq_get?, keyword?_eq_get?]
  exact (equals_iff_get? Value.equivalenceOn_regular ha hb hdistinct hdistinct').1 h _
    (Value.regular_keyword name)

theorem hasKeyword_congr
    (name : String) :
    a.hasKeyword name = b.hasKeyword name := by
  have hfound := keyword?_alike ha hb h name
  cases ha : a.keyword? name <;> cases hb : b.keyword? name <;>
    simp_all [hasKeyword]

theorem isTask_congr :
    a.isTask = b.isTask := by
  rw [isTask, isTask, hasKeyword_congr ha hb h, hasKeyword_congr ha hb h]

theorem keyword?_beq
    (name : String) :
    (a.keyword? name == b.keyword? name) = true := by
  have hfound := keyword?_alike ha hb h name
  cases ha : a.keyword? name <;> cases hb : b.keyword? name <;>
    simp_all

theorem details_beq :
    (TaskDetails.ofEntries a == TaskDetails.ofEntries b) = true := by
  have hbeq := keyword?_beq ha hb h
  simp only [BEq.beq, TaskDetails.ofEntries] at hbeq ⊢
  simp only [hbeq, Bool.and_self]

end Entries

end Maps

section Values

/-- Two frames with the same names and with equal data. -/
inductive FrameAlike : Frame → Frame → Prop
  | literal {v w : Value} (same : (v == w) = true) : FrameAlike (.literal v) (.literal w)
  | symbol (s : Symbol) : FrameAlike (.symbol s) (.symbol s)
  | call : FrameAlike .call .call
  | form (form : SpecialForm) (names : List Symbol) :
      FrameAlike (.form form names) (.form form names)
  | task
      {details details' : TaskDetails}
      (same : (details == details') = true) :
      FrameAlike (.task details) (.task details')

namespace Value

variable {n : Nat} {v w : Value}

/-- What equal maps have under a keyword is equal. -/
theorem EqualBelow.keyword?_alike
    {a b : Entries}
    (h : EqualBelow (n + 1) (.map a) (.map b))
    (name : String) :
    Option.Rel (EqualBelow n) (a.keyword? name) (b.keyword? name) := by
  obtain ⟨ha, hb⟩ := h.parts_regular
  have hfound := Entries.keyword?_alike h.left h.right h.equal name
  cases hpa : Entries.keyword? a name with
  | some v =>
      cases hpb : Entries.keyword? b name with
      | some w =>
          obtain ⟨hleft, hsize⟩ := Entries.of_keyword?_eq_some (forall_mem_parts_map.1 ha) hpa
          have hright := Entries.of_keyword?_eq_some (forall_mem_parts_map.1 hb) hpb
          rw [hpa, hpb, Option.rel_some_some] at hfound
          exact .some ⟨hleft, hright, hfound, hsize⟩
      | none => simp [hpa, hpb] at hfound
  | none =>
      cases hpb : Entries.keyword? b name with
      | some w => simp [hpa, hpb] at hfound
      | none => exact .none

/-- Equal values are taken apart into steps that are alike, and the same frame. -/
theorem EqualBelow.taken_apart
    (h : EqualBelow (n + 1) v w) :
    List.Forall₂ (StepAlike n) v.steps w.steps ∧ FrameAlike v.frame w.frame := by
  obtain ⟨hv, hw⟩ := h.parts_regular
  cases beq_iff_alike.1 h.equal with
  | symbol name =>
      refine ⟨?_, .symbol ⟨name⟩⟩
      rw [steps]
      split
      · exact .cons (.error ⟨rfl, h.equal⟩) .nil
      · exact .nil
  | @list as bs items =>
      have hitems := equalBelow_items hv hw items
      cases hitems with
      | nil => exact ⟨.cons (.error ⟨rfl, h.equal⟩) .nil, .literal h.equal⟩
      | @cons head head' args args' hhead hargs =>
          rw [steps, steps, frame, frame, ← ofHead?_congr hhead.equal]
          cases SpecialForm.ofHead? head with
          | none => exact ⟨expressions_alike (.cons hhead hargs), .call⟩
          | some form =>
              have hrefusal :
                  ParseError.Alike (.ofForm form head args) (.ofForm form head' args') :=
                ⟨rfl, h.equal⟩
              obtain ⟨hsteps, hnames⟩ := form_alike hrefusal form hargs
              refine ⟨hsteps, ?_⟩
              simp only [hnames]
              exact .form form _
  | @map a b length found =>
      have hplan := h.keyword?_alike "plan"
      rw [steps, steps, frame, frame, ← Entries.isTask_congr h.left h.right h.equal]
      split
      · refine ⟨?_, .task (Entries.details_beq h.left h.right h.equal)⟩
        generalize Entries.keyword? a "plan" = plan at hplan ⊢
        generalize Entries.keyword? b "plan" = plan' at hplan ⊢
        cases hplan with
        | some related => exact .cons (.ok related) .nil
        | none => exact .cons (.error ⟨rfl, h.equal⟩) .nil
      · exact ⟨.nil, .literal h.equal⟩
  | _ => exact ⟨.nil, .literal h.equal⟩

end Value

end Values

section Nodes

namespace Node

theorem allEqual_of_forall₂
    {as bs : List Node}
    (h : List.Forall₂ (fun m n => (m == n) = true) as bs) :
    allEqual as bs = true := by
  induction h with
  | nil => rfl
  | cons hhead _ ih => exact Bool.and_eq_true_iff.2 ⟨hhead, ih⟩

theorem bindingsEqual_zip
    (names : List Symbol) {as bs : List Node}
    (h : List.Forall₂ (fun m n => (m == n) = true) as bs) :
    bindingsEqual (names.zip as) (names.zip bs) = true := by
  induction h generalizing names with
  | nil => simp [bindingsEqual]
  | cons hhead _ ih =>
      cases names with
      | nil => rfl
      | cons name names =>
          have hname : (name == name) = true := BEq.rfl
          exact Bool.and_eq_true_iff.2 ⟨Bool.and_eq_true_iff.2 ⟨hname, hhead⟩, ih names⟩

variable {nodes nodes' : List Node} {m n : Node}

theorem fill_form_alike
    (form : SpecialForm) (names : List Symbol)
    (h : List.Forall₂ (fun m n => (m == n) = true) nodes nodes')
    (hm : form.fill names nodes = some m)
    (hn : form.fill names nodes' = some n) :
    (m == n) = true := by
  fun_cases SpecialForm.fill form names nodes with
  | case1 =>
      cases hm
      cases hn
      exact allEqual_of_forall₂ h
  | case2 =>
      cases hm
      cases hn
      exact beq_self_eq_true names
  | case3 target value =>
      obtain _ | ⟨hvalue, _ | _⟩ := h
      cases hm
      cases hn
      exact Bool.and_eq_true_iff.2 ⟨beq_self_eq_true target, hvalue⟩
  | case4 =>
      cases hm
      cases hn
      exact Bool.and_eq_true_iff.2
        ⟨bindingsEqual_zip names h, allEqual_of_forall₂ (List.forall₂_drop names.length h)⟩
  | case5 _ condition thenBranch elseBranch =>
      obtain _ | ⟨hc, _ | ⟨ht, _ | ⟨he, _ | _⟩⟩⟩ := h
      cases hm
      cases hn
      exact Bool.and_eq_true_iff.2 ⟨Bool.and_eq_true_iff.2 ⟨hc, ht⟩, he⟩
  | case6 =>
      cases hm
      cases hn
      exact Bool.and_eq_true_iff.2 ⟨beq_self_eq_true names, allEqual_of_forall₂ h⟩
  | case7 =>
      cases hm
      cases hn
      exact bindingsEqual_zip names h
  | case8 id expr =>
      obtain _ | ⟨hexpr, _ | _⟩ := h
      cases hm
      cases hn
      exact Bool.and_eq_true_iff.2 ⟨beq_self_eq_true id, hexpr⟩
  | case9 =>
      -- no other number of names and nodes makes the form
      rw [SpecialForm.fill.eq_9] at hm
      · cases hm
      all_goals assumption

/-- Frames that are alike, filled with equal nodes, are equal nodes. -/
theorem fill_alike
    {f g : Frame}
    (hframe : FrameAlike f g)
    (h : List.Forall₂ (fun m n => (m == n) = true) nodes nodes')
    (hm : f.fill nodes = some m)
    (hn : g.fill nodes' = some n) :
    (m == n) = true := by
  cases hframe with
  | literal same =>
      cases hm
      cases hn
      exact same
  | symbol s =>
      cases hm
      cases hn
      exact beq_self_eq_true s
  | call =>
      cases hm
      cases hn
      exact allEqual_of_forall₂ h
  | form form names => exact fill_form_alike form names h hm hn
  | task same =>
      rcases h with _ | ⟨hplan, _ | _⟩
      · cases hm
      · cases hm
        cases hn
        exact Bool.and_eq_true_iff.2 ⟨same, hplan⟩
      · cases hm

/-- Equal values are understood as equal nodes, or refused alike. -/
theorem ofValue_alike
    {v w : Value}
    (hv : v.Regular)
    (hw : w.Regular)
    (h : (v == w) = true) :
    Corresponds ParseError.Alike (fun m n => (m == n) = true) (ofValue v) (ofValue w) := by
  have hbelow : ∀ n v w, Value.EqualBelow n v w →
      Corresponds ParseError.Alike (fun m n => (m == n) = true) (ofValue v) (ofValue w) := by
    intro n
    induction n with
    | zero => exact fun v w h => absurd h.size (Nat.not_lt_zero _)
    | succ n ih =>
        intro v w h
        obtain ⟨hsteps, hframe⟩ := h.taken_apart
        have hrun := Corresponds.mapM (hsteps.imp fun _ _ hstep => hstep.bind ih)
        exact hrun.square (corresponds_ofValue v) (corresponds_ofValue w)
          fun nodes nodes' hnodes m n hm hn => fill_alike hframe hnodes hm hn
  exact hbelow (sizeOf v + 1) v w ⟨hv, hw, h, Nat.lt_succ_self _⟩

end Node

end Nodes

section LogEntries

namespace LogEntry

/-- Equal values give the same instant, if any. -/
theorem instant?_congr
    {v w : Value}
    (h : (v == w) = true) :
    instant? v = instant? w := by
  cases Value.beq_iff_alike.1 h <;> rfl

section Parts

variable {a b : Entries}
  (ha : Value.Regular (.map a)) (hb : Value.Regular (.map b))
  (h : (Value.map a == Value.map b) = true)
include ha hb h

theorem timestampOf_alike :
    Corresponds ParseError.Alike Eq (timestampOf a) (timestampOf b) := by
  have hfound := Entries.keyword?_alike ha hb h "timestamp"
  rw [timestampOf, timestampOf]
  generalize a.keyword? "timestamp" = value at hfound ⊢
  generalize b.keyword? "timestamp" = value' at hfound ⊢
  cases hfound with
  | @some value value' hequal =>
      simp only [← instant?_congr hequal]
      cases instant? value with
      | some instant => exact .ok rfl
      | none => exact .error ⟨rfl, h⟩
  | none => exact .ok rfl

theorem planOf_alike :
    Corresponds ParseError.Alike (Option.Rel fun m n => (m == n) = true) (planOf a) (planOf b) := by
  have hequal : Value.EqualBelow (sizeOf (Value.map a) + 1) (.map a) (.map b) :=
    ⟨ha, hb, h, Nat.lt_succ_self _⟩
  have hfound := hequal.keyword?_alike "plan"
  rw [planOf, planOf]
  generalize a.keyword? "plan" = plan at hfound ⊢
  generalize b.keyword? "plan" = plan' at hfound ⊢
  cases hfound with
  | some related =>
      have hplan := Node.ofValue_alike related.left related.right related.equal
      exact hplan.map fun _ _ hnodes => Option.Rel.some hnodes
  | none => exact .ok .none

theorem details_beq
    (timestamp : Option Instant) :
    (detailsOf a timestamp == detailsOf b timestamp) = true := by
  have hbeq := Entries.keyword?_beq ha hb h
  change (_ == _ && _ == _ && timestamp == timestamp && _ == _ && _ == _ && _ == _ && _ == _ &&
    _ == _ && _ == _) = true
  simp only [detailsOf, hbeq, beq_self_eq_true, Bool.and_self]

end Parts

/-- Equal values are understood as equal log entries, or refused alike. -/
theorem ofValue_alike
    {v w : Value}
    (hv : v.Regular)
    (hw : w.Regular)
    (h : (v == w) = true) :
    Corresponds ParseError.Alike (fun d e => (d.toNode == e.toNode) = true) (ofValue v)
      (ofValue w) := by
  cases Value.beq_iff_alike.1 h with
  | map length found =>
      refine (timestampOf_alike hv hw h).bind fun timestamp timestamp' htimestamp => ?_
      refine (planOf_alike hv hw h).bind fun plan plan' hplan => .ok ?_
      obtain rfl := htimestamp
      have hdetails := details_beq hv hw h timestamp
      cases hplan with
      | some hplan => exact Bool.and_eq_true_iff.2 ⟨hdetails, hplan⟩
      | none => exact hdetails
  | _ => exact .error ⟨rfl, h⟩

end LogEntry

end LogEntries

/-- The order of entries does not show in what a value is understood as, neither as a program nor
as a log entry, nor in the reason and the place of a refusal. -/
theorem Value.understood_alike
    {v w : Value}
    (hv : v.Regular)
    (hw : w.Regular)
    (h : (v == w) = true) :
    Corresponds ParseError.Alike (fun m n => (m == n) = true) (Node.ofValue v) (Node.ofValue w) ∧
      Corresponds ParseError.Alike (fun d e => (d.toNode == e.toNode) = true)
        (LogEntry.ofValue v) (LogEntry.ofValue w) :=
  ⟨Node.ofValue_alike hv hw h, LogEntry.ofValue_alike hv hw h⟩

/-- A task and its plan's argument, each with its entries in two orders. -/
theorem Value.understood_alike_swapped :
    Corresponds ParseError.Alike (fun m n => (m == n) = true)
      (Node.ofValue
        (.map
          [(.keyword "id", .nil),
            (.keyword "plan",
              .list [.symbol "f", .map [(.nil, .string "x"), (.boolean true, .nil)]])]))
      (Node.ofValue
        (.map
          [(.keyword "plan",
              .list [.symbol "f", .map [(.boolean true, .nil), (.nil, .string "x")]]),
            (.keyword "id", .nil)])) := by
  refine (Value.understood_alike ?left ?right ?equal).1
  case left => simp [Entries.Distinct, Entries.keys, BEq.beq, equals]
  case right => simp [Entries.Distinct, Entries.keys, BEq.beq, equals]
  case equal => simp [BEq.beq, equals, itemsEqual, storedIn, finds]

end TaskTree
