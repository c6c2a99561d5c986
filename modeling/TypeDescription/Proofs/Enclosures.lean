import TypeDescription.Proofs.Lexemes

/-!
Where an enclosed text ends. The search for the closing delimiter is decided by the text and the
delimiter alone, not by what follows; and a line without the delimiter is passed over as a whole,
since a line feed is no part of a delimiter. So it makes no difference whether a text is searched
at once or line by line.
-/

namespace TypeDescription

/-- Whatever follows, the text ends where the closing delimiter follows it. -/
def Encloses (closer text : List Char) : Prop :=
  ∀ more, upToCloser closer (text ++ closer ++ more) = some (text, more)

/-- Text that holds no closing delimiter, whatever follows it. -/
def StaysOpen (closer text : List Char) : Prop :=
  ∀ more, upToCloser closer (text ++ more) =
    (upToCloser closer more).map fun (inner, after) => (text ++ inner, after)

section Search

variable {closer : List Char}

theorem up_to_closer_cons {c : Char} (plain : c ≠ '\\') (rest : List Char) :
    upToCloser closer (c :: rest) =
      match closer.isPrefixOf? (c :: rest) with
      | some after => some ([], after)
      | none => (upToCloser closer rest).map fun (text, after) => (c :: text, after) := by
  apply upToCloser.eq_4
  · exact fun same _ => plain same
  · exact fun _ _ same _ => plain same

theorem not_prefix_of_absent {first s : List Char} (absent : first.isPrefixOf? s = none) : ¬ first <+: s := by
  rintro ⟨after, shape⟩
  rw [List.isPrefixOf?_eq_some_iff_append_eq.mpr shape] at absent
  cases absent

/-- What follows does not make a prefix of what is long enough. -/
theorem is_prefix_of_append_eq_none {first s : List Char}
    (absent : first.isPrefixOf? s = none) (apart : ¬ s <+: first) (more : List Char) :
    first.isPrefixOf? (s ++ more) = none := by
  rw [Option.eq_none_iff_forall_ne_some]
  intro after found
  have starts : first <+: s ++ more := ⟨after, List.isPrefixOf?_eq_some_iff_append_eq.mp found⟩
  rcases List.prefix_or_prefix_of_prefix starts (List.prefix_append s more) with inside | longer
  · exact not_prefix_of_absent absent inside
  · exact apart longer

/-- A line without the closing delimiter is passed over. -/
theorem stays_open_of_line {line : List Char} (noFeed : '\n' ∉ closer)
    (ends : line.getLast? = .some '\n') (absent : upToCloser closer line = none) :
    StaysOpen closer line := by
  fun_induction upToCloser closer line with
  | case1 => cases ends
  | case2 => cases ends
  | case3 c rest ih =>
    intro more
    rw [List.cons_append, List.cons_append, upToCloser]
    by_cases last : rest = []
    · subst last
      simp
    · have ends' : rest.getLast? = .some '\n' := by
        rwa [List.getLast?_cons_cons, List.getLast?_cons_of_ne_nil last] at ends
      have still := ih ends' (Option.map_eq_none_iff.mp absent) more
      rw [still, Option.map_map]
      rfl
  | case4 => cases absent
  | case5 c rest noEnd noCover apart ih =>
    intro more
    have plain := ne_escape noEnd noCover
    have here : closer.isPrefixOf? (c :: rest ++ more) = none := by
      refine is_prefix_of_append_eq_none apart (fun inside => ?_) more
      exact noFeed (inside.subset (List.mem_of_getLast? ends))
    rw [List.cons_append] at here
    rw [List.cons_append, up_to_closer_cons plain, here]
    by_cases last : rest = []
    · subst last
      rfl
    · have ends' : rest.getLast? = .some '\n' := by
        rwa [List.getLast?_cons_of_ne_nil last] at ends
      have still := ih ends' (Option.map_eq_none_iff.mp absent) more
      rw [still]
      simp [Option.map_map, Function.comp_def]

/-- An enclosed text may start with what stays open. -/
theorem StaysOpen.encloses {first text : List Char} (stays : StaysOpen closer first)
    (encloses : Encloses closer text) : Encloses closer (first ++ text) := by
  intro more
  have found := encloses more
  rw [List.append_assoc] at found
  rw [List.append_assoc, List.append_assoc, stays, found]
  rfl

theorem StaysOpen.append {first second : List Char} (stays : StaysOpen closer first)
    (stays' : StaysOpen closer second) : StaysOpen closer (first ++ second) := by
  intro more
  rw [List.append_assoc, stays, stays', Option.map_map]
  simp only [Function.comp_def, List.append_assoc]

variable (plainCloser : '\\' ∉ closer) (some : closer ≠ [])

include plainCloser some

theorem up_to_closer_eq_some {s text after : List Char}
    (found : upToCloser closer s = .some (text, after)) :
    s = text ++ closer ++ after ∧ Encloses closer text := by
  fun_induction upToCloser closer s generalizing text with
  | case1 => cases found
  | case2 => cases found
  | case3 c rest ih =>
    obtain ⟨⟨text', after'⟩, found', same⟩ := Option.map_eq_some_iff.mp found
    cases same
    obtain ⟨shape, encloses⟩ := ih found'
    refine ⟨by rw [shape]; rfl, fun more => ?_⟩
    rw [List.cons_append, List.cons_append, List.cons_append, List.cons_append, upToCloser,
      encloses more]
    rfl
  | case4 c rest noEnd noCover after' closed =>
    cases found
    have shape := List.isPrefixOf?_eq_some_iff_append_eq.mp closed
    refine ⟨shape.symm, fun more => ?_⟩
    obtain ⟨d, ds, rfl⟩ := List.exists_cons_of_ne_nil some
    have plain : d ≠ '\\' := fun same => plainCloser (same ▸ List.mem_cons_self ..)
    have here : (d :: ds).isPrefixOf? (d :: (ds ++ more)) = .some more :=
      List.isPrefixOf?_eq_some_iff_append_eq.mpr rfl
    rw [List.nil_append, List.cons_append, up_to_closer_cons plain, here]
  | case5 c rest noEnd noCover absent ih =>
    obtain ⟨⟨text', after'⟩, found', same⟩ := Option.map_eq_some_iff.mp found
    cases same
    obtain ⟨rfl, encloses⟩ := ih found'
    have plain := ne_escape noEnd noCover
    refine ⟨rfl, fun more => ?_⟩
    have absent' : closer.isPrefixOf? (c :: (text' ++ closer)) = none := by
      rw [Option.eq_none_iff_forall_ne_some]
      intro rest found
      have shape := List.isPrefixOf?_eq_some_iff_append_eq.mp found
      refine not_prefix_of_absent absent ⟨rest ++ after, ?_⟩
      rw [← List.append_assoc, shape]
      rfl
    have long : ¬ c :: (text' ++ closer) <+: closer := by
      intro inside
      have bound := inside.length_le
      simp only [List.length_cons, List.length_append] at bound
      omega
    have still := is_prefix_of_append_eq_none absent' long more
    rw [List.cons_append] at still
    rw [List.cons_append, List.cons_append, up_to_closer_cons plain, still, encloses more]
    rfl

/-- A line without the closing delimiter is the start of the enclosed text. -/
theorem encloses_of_line {line text : List Char} (noFeed : '\n' ∉ closer)
    (ends : line.getLast? = .some '\n') (encloses : Encloses closer (line ++ text)) :
    upToCloser closer line = none ∧ Encloses closer text := by
  have absent : upToCloser closer line = none := by
    rw [Option.eq_none_iff_forall_ne_some]
    rintro ⟨inner, after⟩ found
    obtain ⟨shape, encloses'⟩ := up_to_closer_eq_some plainCloser some found
    have whole := encloses []
    have whole' := encloses' (after ++ text ++ closer)
    have same : line ++ text ++ closer ++ [] = inner ++ closer ++ (after ++ text ++ closer) := by
      rw [shape]
      simp
    rw [same, whole'] at whole
    have lengths := congrArg (fun found => found.1.length) (Option.some.inj whole)
    have lengths' := congrArg List.length shape
    have positive : 0 < closer.length := List.length_pos_iff.mpr some
    simp only [List.length_append] at lengths lengths'
    omega
  have stays := stays_open_of_line noFeed ends absent
  refine ⟨absent, fun more => ?_⟩
  have whole := encloses more
  rw [List.append_assoc, List.append_assoc, stays, Option.map_eq_some_iff] at whole
  obtain ⟨⟨inner, after⟩, found, same⟩ := whole
  have inner' : inner = text := List.append_cancel_left (congrArg Prod.fst same)
  have after' : after = more := congrArg Prod.snd same
  rw [List.append_assoc, found, inner', after']

end Search

end TypeDescription
