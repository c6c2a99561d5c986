import TypeDescription.Proofs.Chains

/-!
Lists that are changed by calls. A list takes items at its end until a call closes it. A call that
fails leaves the list as it was, since both calls refuse before they change anything. So, however
many calls are made, the list is known from those that succeeded: it holds the items that were
added, linked one to the next, and the end that closed it.
-/

namespace TypeDescription

/-! ## Calls -/

/-- A call that changes a list. -/
inductive ListCall where
  | append (item : Conjunction)
  | terminate (last : Conjunction)

namespace ListCall

/-- What a call does to a list. -/
def action : ListCall → ConsList.Action
  | append item => ConsList.addItem item
  | terminate last => ConsList.addEnd last

/-- The item that a call adds. -/
def item? : ListCall → Option Conjunction
  | append item => some item
  | terminate _ => none

/-- The end with which a call closes a list; an open end closes nothing. -/
def closing? : ListCall → Option Conjunction
  | append _ => none
  | terminate last => if ListEnd.of last = .open then none else some last

end ListCall

namespace ConsList

/-- Whether a call fails, and the list that it leaves. -/
def call (l : ConsList) (c : ListCall) : Except Cause Unit × ConsList := l.after c.action

/-- The list after calls, each on what the one before left, and those of them that succeeded. -/
def run (l : ConsList) : List ListCall → ConsList × List ListCall
  | [] => (l, [])
  | c :: rest =>
    match l.call c with
    | (.ok (), next) => ((run next rest).1, c :: (run next rest).2)
    | (.error _, next) => run next rest

/-! ## One call -/

/-- A call that fails leaves the list as it was. -/
theorem call_of_error {l : ConsList} {c : ListCall} {cause : Cause} (failed : (l.call c).1 = .error cause) :
    (l.call c).2 = l := by
  revert failed
  cases c with
  | append item =>
    rw [call, ListCall.action, after_add_item]
    split
    · exact fun _ => rfl
    · exact fun failed => nomatch failed
  | terminate last =>
    rw [call, ListCall.action, after_add_end]
    split
    · exact fun _ => rfl
    · split
      · exact fun _ => rfl
      · exact fun failed => nomatch failed

section Calls

variable {items : List Conjunction} {last : Option Conjunction}

theorem call_append_holding (item : Conjunction) : (holding items last).call (.append item) =
    if last.isSome then (.error .closedList, holding items last)
    else (.ok (), holding (items ++ [item]) none) := by
  have shut : (holding items last).terminated = last.isSome := rfl
  have null : (holding items last).avm.isNull = (items.isEmpty && last.isSome) := is_null_chain ..
  rw [call, ListCall.action, after_add_item, shut, null]
  cases last with
  | none => simp [push_holding]
  | some last => simp

theorem call_terminate_holding (c : Conjunction) : (holding items last).call (.terminate c) =
    if last.isSome then (.error .closedList, holding items last)
    else if items = [] ∧ ListEnd.of c = .value then (.error .invalidEmptyList, holding items last)
    else (.ok (), holding items (if ListEnd.of c = .open then none else some c)) := by
  have shut : (holding items last).terminated = last.isSome := rfl
  have length : (holding items last).length = 0 ↔ items = [] := List.length_eq_zero_iff
  simp only [call, ListCall.action, after_add_end, shut, length]
  cases last with
  | some last => rfl
  | none =>
    by_cases stays : ListEnd.of c = .open
    · simp [stays, finish_open]
    · simp [stays, finish_holding]

/-- Only an open list takes a call, and what it holds then is known from the call. -/
theorem call_holding {c : ListCall} (done : ((holding items last).call c).1 = .ok ()) :
    last = none ∧ ((holding items last).call c).2 = holding (items ++ c.item?.toList) c.closing? := by
  revert done
  cases c with
  | append item =>
    rw [call_append_holding]
    split
    · exact fun done => nomatch done
    · next stillOpen => exact fun _ => ⟨by simpa using stillOpen, rfl⟩
  | terminate c =>
    rw [call_terminate_holding]
    split
    · exact fun done => nomatch done
    · next stillOpen =>
      split
      · exact fun done => nomatch done
      · exact fun _ => ⟨by simpa using stillOpen, by simp [ListCall.item?, ListCall.closing?]⟩

/-! ## Values and an end -/

theorem append_holding (item : Conjunction) :
    (holding items none).append item = .ok (holding (items ++ [item]) none) := by
  have added : (holding items none).after (addItem item) = (.ok (), holding (items ++ [item]) none) :=
    call_append_holding item
  rw [append, changed, added]
  rfl

theorem foldlM_append_holding (items values : List Conjunction) :
    values.foldlM append (holding items none) = .ok (holding (items ++ values) none) := by
  induction values generalizing items with
  | nil => rw [List.foldlM_nil, List.append_nil]; rfl
  | cons value rest ih =>
    rw [List.foldlM_cons, append_holding]
    exact (ih (items ++ [value])).trans (by rw [List.append_assoc, List.singleton_append])

/-- Values are added to the empty list, and then it is ended. Of all that only the end can be refused. -/
theorem of_values_eq (values : List Conjunction) (last : Conjunction) : ofValues values last =
    if values = [] ∧ ListEnd.of last = .value then .error .invalidEmptyList
    else .ok (holding values (if ListEnd.of last = .open then none else some last)) := by
  have start : values.foldlM append empty = .ok (holding values none) := foldlM_append_holding [] values
  have ended : (holding values none).after (addEnd last) =
      if values = [] ∧ ListEnd.of last = .value then (.error .invalidEmptyList, holding values none)
      else (.ok (), holding values (if ListEnd.of last = .open then none else some last)) :=
    call_terminate_holding last
  rw [ofValues, start]
  change (holding values none).changed (addEnd last) = _
  rw [changed, ended]
  split <;> rfl

/-! ## Many calls -/

/-- What a list holds after calls: the items that were added, and the end of the one call that
closed it. -/
theorem run_holding (items : List Conjunction) (last : Option Conjunction) (calls : List ListCall) :
    let done := ((holding items last).run calls).2
    let ended := last.or (done.findSome? ListCall.closing?)
    ((holding items last).run calls).1 = holding (items ++ done.filterMap ListCall.item?) ended ∧
      last.toList ++ done.filterMap ListCall.closing? = ended.toList := by
  induction calls generalizing items last with
  | nil => simp [run]
  | cons c rest ih =>
    rcases taken : (holding items last).call c with ⟨cause | _, next⟩
    · have same := call_of_error (congrArg Prod.fst taken)
      rw [taken] at same
      obtain rfl : next = holding items last := same
      simpa only [run, taken] using ih items last
    · obtain ⟨rfl, same⟩ := call_holding (congrArg Prod.fst taken)
      rw [taken] at same
      obtain rfl : next = holding (items ++ c.item?.toList) c.closing? := same
      obtain ⟨final, once⟩ := ih (items ++ c.item?.toList) c.closing?
      simp only [run, taken]
      cases added : c.item? <;> cases closed : c.closing? <;>
        simp_all

/-- One more call after others. -/
theorem run_concat (l : ConsList) (calls : List ListCall) (c : ListCall) :
    l.run (calls ++ [c]) =
      match (l.run calls).1.call c with
      | (.ok (), next) => (next, (l.run calls).2 ++ [c])
      | (.error _, next) => (next, (l.run calls).2) := by
  induction calls generalizing l with
  | nil =>
    rcases taken : l.call c with ⟨_ | _, next⟩ <;> simp only [List.nil_append, run, taken]
  | cons first rest ih =>
    rw [List.cons_append, run, run]
    rcases l.call first with ⟨cause | _, next⟩
    · exact ih next
    · simp only [ih]
      rcases (run next rest).1.call c with ⟨_ | _, last⟩ <;> rfl

end Calls

/-- How a list behaves that holds these items and, once it is closed, this end. -/
structure Behaves (l : ConsList) (items : List Conjunction) (last : Option Conjunction) : Prop where
  append : ∀ item cause, (l.call (.append item)).1 = .error cause ↔ last.isSome ∧ cause = .closedList
  terminate : ∀ c cause, (l.call (.terminate c)).1 = .error cause ↔
    last.isSome ∧ cause = .closedList ∨
    last = none ∧ items = [] ∧ ¬ IsLone emptyListType c ∧ ¬ IsLone openListType c ∧
      cause = .invalidEmptyList
  values : l.values = items
  length : l.length = items.length
  terminated : l.terminated = last.isSome
  tail : ∀ c, l.tail? = some c ↔ last = some c ∧ items ≠ [] ∧ ¬ IsLone emptyListType c
  null : l.avm.isNull = true ↔ items = [] ∧ last.isSome
  chain : l.avm = .chain items last

theorem holding_behaves (items : List Conjunction) (last : Option Conjunction) :
    (holding items last).Behaves items last where
  append item cause := by
    rw [call_append_holding]
    cases last <;> simp [eq_comm]
  terminate c cause := by
    have value := list_end_value_iff (c := c)
    rw [call_terminate_holding]
    cases last with
    | some last => simp [eq_comm]
    | none =>
      by_cases refused : items = [] ∧ ListEnd.of c = .value
      · obtain ⟨noMark, notOpen⟩ := value.mp refused.2
        simp [refused, noMark, notOpen, eq_comm]
      · have accepted : ¬ (items = [] ∧ ¬ IsLone emptyListType c ∧ ¬ IsLone openListType c) := by
          rwa [← value]
        simp [if_neg refused]
        tauto
  values := values_holding items last
  length := rfl
  terminated := rfl
  tail c := by
    cases last with
    | none => simp [tail?, holding]
    | some last =>
      by_cases none : items = []
      · simp [tail?, holding, none]
      · have positive : ((holding items (some last)).length == 0) = false := by simpa [holding] using none
        have shut : (holding items (some last)).terminated = true := rfl
        have kept : (holding items (some last)).tail? =
            (some last).filter fun value => ListEnd.of value ≠ .closed := by
          rw [tail?, shut, positive, get_end_holding none]
          rfl
        rw [kept, Option.filter_eq_some_iff, ← list_end_closed_iff]
        simp [none]
  null := by
    rw [holding, is_null_chain]
    simp
  chain := rfl

/-- A list refines the history of the calls on it. Whatever calls are made on a new list, it behaves
as one that holds the items of the calls that succeeded, in order, and the end of the one that
closed it, if one did; and a call that fails leaves the list, and what is known of it, as it was. -/
theorem run_refines_history (calls : List ListCall) :
    let l := (empty.run calls).1
    let done := (empty.run calls).2
    l.Behaves (done.filterMap ListCall.item?) (done.findSome? ListCall.closing?) ∧
      done.filterMap ListCall.closing? = (done.findSome? ListCall.closing?).toList ∧
      (∀ c cause, (l.call c).1 = .error cause → (l.call c).2 = l ∧ empty.run (calls ++ [c]) = (l, done)) ∧
      ∀ c, (l.call c).1 = .ok () → empty.run (calls ++ [c]) = ((l.call c).2, done ++ [c]) := by
  obtain ⟨final, once⟩ := run_holding [] none calls
  have start : holding [] none = empty := rfl
  rw [start] at final once
  simp only [List.nil_append, Option.none_or, Option.toList_none] at final once
  refine ⟨?_, once, fun c cause failed => ?_, fun c taken => ?_⟩
  · rw [final]
    exact holding_behaves _ _
  · have same := call_of_error failed
    have whole : (empty.run calls).1.call c = (.error cause, (empty.run calls).1) := Prod.ext failed same
    exact ⟨same, by rw [run_concat, whole]⟩
  · have whole : (empty.run calls).1.call c = (.ok (), ((empty.run calls).1.call c).2) := Prod.ext taken rfl
    rw [run_concat, whole]

end ConsList

end TypeDescription
