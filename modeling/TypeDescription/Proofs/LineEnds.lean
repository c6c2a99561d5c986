import TypeDescription.Proofs.LeftmostMatches

/-!
What is added at the end of a line. Most rules look no further than the token that they find, so a
space with anything behind it changes nothing for them. A letter set has to reach the end of its
line. The first field of an affix pattern goes on to the next space, which may be the one that is
added; but a second field that is found only then has its parenthesis in what is added, with no space
before it there.
-/

namespace TypeDescription

open Lexeme

namespace Lexeme

/-- Such text ends every symbol before it: it is empty, or a space or a line feed comes first. -/
def Stops (t : List Char) : Prop := ∀ c ∈ t.head?, c = ' ' ∨ c = '\n'

/-- The rule looks at nothing behind such text. -/
def IsLocal (rule : List Char → Option Match) : Prop :=
  ∀ s t, Stops t → rule (s ++ t) = (rule s).map fun (text, after) => (text, after ++ t)

theorem is_prefix_of_append {spelled : List Char} (plain : ∀ c ∈ spelled, c ≠ ' ' ∧ c ≠ '\n')
    (s : List Char) {t : List Char} (stops : Stops t) :
    spelled.isPrefixOf? (s ++ t) = (spelled.isPrefixOf? s).map (· ++ t) := by
  induction spelled generalizing s with
  | nil => rfl
  | cons c spelled ih =>
    obtain ⟨here, plain⟩ := List.forall_mem_cons.mp plain
    cases s with
    | cons d s =>
      rw [List.cons_append, List.isPrefixOf?, List.isPrefixOf?]
      split
      · exact ih plain s
      · rfl
    | nil =>
      cases t with
      | nil => rfl
      | cons d t =>
        have differ : c ≠ d := by
          rintro rfl
          rcases stops c rfl with same | same
          · exact here.1 same
          · exact here.2 same
        simp [List.isPrefixOf?, differ]

theorem local_literal (spelled : List Char) (plain : ∀ c ∈ spelled, c ≠ ' ' ∧ c ≠ '\n') :
    IsLocal (literal spelled) := by
  intro s t stops
  simp only [literal, is_prefix_of_append plain s stops, Option.map_map, Function.comp_def]

/-- No enclosure opens only because of such text. -/
theorem opening_append {s t : List Char} (stops : Stops t) :
    Enclosure.opening? (s ++ t) = (Enclosure.opening? s).map fun (enclosure, body) =>
      (enclosure, body ++ t) := by
  have plain (enclosure : Enclosure) : ∀ c ∈ enclosure.opener, c ≠ ' ' ∧ c ≠ '\n' := by
    cases enclosure <;> simp [Enclosure.opener]
  simp only [Enclosure.opening?, is_prefix_of_append (plain _) s stops]
  cases Enclosure.docstring.opener.isPrefixOf? s with
  | some body => rfl
  | none => cases Enclosure.comment.opener.isPrefixOf? s <;> rfl

theorem local_symbol : IsLocal symbol := by
  intro s t stops
  have ends : t.takeWhile isSymbolChar = [] ∧ t.dropWhile isSymbolChar = t := by
    cases t with
    | nil => exact ⟨rfl, rfl⟩
    | cons c t =>
      have broken : ¬ isSymbolChar c = true := by
        rcases stops c rfl with rfl | rfl <;> decide
      rw [List.takeWhile_cons_of_neg broken, List.dropWhile_cons_of_neg broken]
      exact ⟨rfl, rfl⟩
  have taken : (s ++ t).takeWhile isSymbolChar = s.takeWhile isSymbolChar := by
    rw [List.takeWhile_append, ends.1, List.append_nil]
    split
    · next whole => rw [(List.takeWhile_prefix _).eq_of_length whole]
    · rfl
  have left : (s ++ t).dropWhile isSymbolChar = s.dropWhile isSymbolChar ++ t := by
    rw [List.dropWhile_append, ends.2]
    split
    · next none => rw [List.isEmpty_iff.mp none, List.nil_append]
    · rfl
  rw [symbol, symbol, taken, left]
  cases s.takeWhile isSymbolChar <;> rfl

/-- A rule for one first character has to be looked at only behind this character. -/
theorem local_of_first {d : Char} {rule : List Char → Option Match} (plain : d ≠ ' ' ∧ d ≠ '\n')
    (other : ∀ s, s.head? ≠ some d → rule s = none)
    (here : ∀ s t, Stops t →
      rule (d :: s ++ t) = (rule (d :: s)).map fun (text, after) => (text, after ++ t)) :
    IsLocal rule := by
  intro s t stops
  cases s with
  | nil =>
    have apart : t.head? ≠ some d := fun starts => (stops d starts).elim plain.1 plain.2
    rw [List.nil_append, other t apart, other [] (by simp)]
    rfl
  | cons c s =>
    by_cases same : c = d
    · subst same
      exact here s t stops
    · have apart (u : List Char) : (c :: u).head? ≠ some d := fun starts => same (Option.some.inj starts)
      rw [List.cons_append, other _ (apart _), other _ (apart _)]
      rfl

theorem local_quoted_symbol : IsLocal quotedSymbol := by
  refine local_of_first (d := '\'') (by decide) (fun s apart => ?_) local_symbol
  rw [quotedSymbol.eq_def]
  split
  · exact absurd rfl apart
  · rfl

theorem local_coreference : IsLocal coreference := by
  refine local_of_first (d := '#') (by decide) (fun s apart => ?_) fun s t stops => ?_
  · rw [coreference.eq_def]
    split
    · exact absurd rfl apart
    · rfl
  · simp only [List.cons_append, coreference, local_symbol s t stops, Option.map_map,
      Function.comp_def]

theorem local_affix_marker : IsLocal affixMarker := by
  refine local_of_first (d := '%') (by decide) (fun s apart => ?_) fun s t stops => ?_
  · rw [affixMarker.eq_def]
    split
    · exact absurd rfl apart
    · rfl
  · have front := local_literal ['p', 'r', 'e', 'f', 'i', 'x'] (by simp) s t stops
    have back := local_literal ['s', 'u', 'f', 'f', 'i', 'x'] (by simp) s t stops
    simp only [List.cons_append, affixMarker, front, back]
    cases literal ['p', 'r', 'e', 'f', 'i', 'x'] s <;> rfl

/-- What a rule answers, with more behind it. -/
def Keeps (rule : List Char → Option Match) (s t : List Char) : Prop :=
  rule (s ++ t) = (rule s).map fun (text, after) => (text, after ++ t)

theorem keeps_of_none {rule : List Char → Option Match} {s t : List Char} (nothing : rule s = none)
    (nothing' : rule (s ++ t) = none) : Keeps rule s t := by
  rw [Keeps, nothing, nothing']
  rfl

/-- The token that is found, with more behind it. -/
def KeepsFirst (s t : List Char) : Prop :=
  first? (s ++ t) = (first? s).map fun (kind, text, after) => (kind, text, after ++ t)

/-- If every rule answers the same, the same token is found. -/
theorem first_of_keeps {s t : List Char} (keeps : ∀ entry ∈ rules, Keeps entry.2 s t) : KeepsFirst s t := by
  rw [KeepsFirst, first?, first?, List.map_findSome?]
  refine Pattern.find_some_congr fun entry member => ?_
  have kept := keeps entry member
  rw [Keeps] at kept
  simp [kept, Function.comp_def]

section Other

variable {c : Char} {s t : List Char}

/-- The rules that are not local need certain first characters. -/
private theorem keeps_of_other (stops : Stops t) (semicolon : c ≠ ';') (quote : c ≠ '"') (caret : c ≠ '^')
    (parenthesis : c ≠ '(') (letters : Keeps letterSet (c :: s) t) :
    ∀ entry ∈ rules, Keeps entry.2 (c :: s) t := by
  have symbolic {spelled : List Char} (plain : ∀ d ∈ spelled, d ≠ ' ' ∧ d ≠ '\n') :
      Keeps (literal spelled) (c :: s) t := local_literal spelled plain (c :: s) t stops
  simp only [rules, List.forall_mem_cons]
  refine ⟨keeps_of_none ?_ ?_, keeps_of_none ?_ ?_, local_quoted_symbol _ _ stops, keeps_of_none ?_ ?_,
    ?_, ?_, ?_, ?_, ?_, ?_, ?_, ?_, ?_, ?_, ?_, ?_, ?_, local_coreference _ _ stops, letters,
    local_affix_marker _ _ stops, keeps_of_none ?_ ?_, ?_, local_symbol _ _ stops, List.forall_mem_nil _⟩
  iterate 2 simp [lineComment, semicolon]
  iterate 2 simp [between, quote]
  iterate 2 simp [between, caret]
  iterate 13 exact symbolic (by simp)
  iterate 2 simp [affixPattern, parenthesis]
  exact symbolic (by simp)

theorem keeps_first_of_other (stops : Stops t) (plain : c ∉ [';', '"', '^', '(', '%']) :
    KeepsFirst (c :: s) t := by
  simp only [List.mem_cons, List.not_mem_nil, or_false, not_or] at plain
  obtain ⟨semicolon, quote, caret, parenthesis, percent⟩ := plain
  refine first_of_keeps (keeps_of_other stops semicolon quote caret parenthesis (keeps_of_none ?_ ?_))
  · simp [letterSet, percent]
  · simp [letterSet, percent]

/-- A percent sign with no parenthesis after it starts a marker or a symbol. -/
theorem keeps_first_of_percent (stops : Stops t) (closed : letterSet ('%' :: s) = none)
    (closed' : letterSet ('%' :: s ++ t) = none) : KeepsFirst ('%' :: s) t :=
  first_of_keeps (keeps_of_other stops (by decide) (by decide) (by decide) (by decide)
    (keeps_of_none closed closed'))

end Other

/-! ## Strings and regular expressions -/

/-- What is not the end of a line stands before it. -/
theorem split_at_end {first after s ending : List Char} (ends : ending = [] ∨ ending = ['\n'])
    (last : first.getLast? ≠ some '\n') (shape : s ++ ending = first ++ after) :
    ∃ rest, s = first ++ rest ∧ after = rest ++ ending := by
  rcases ends with rfl | rfl
  · rw [List.append_nil] at shape
    exact ⟨after, shape, (List.append_nil _).symm⟩
  · rcases List.eq_nil_or_concat after with rfl | ⟨rest, c, rfl⟩
    · rw [List.append_nil] at shape
      exact absurd (shape ▸ List.getLast?_concat) last
    · rw [List.concat_eq_append, ← List.append_assoc] at shape
      obtain ⟨same, feed⟩ := List.append_inj' shape rfl
      exact ⟨rest, same, by rw [List.concat_eq_append, ← feed]⟩

theorem up_to_append {closer : Char} {s ending text after : List Char} (plain : closer ≠ '\\')
    (noFeed : closer ≠ '\n') (ends : ending = [] ∨ ending = ['\n'])
    (found : upTo closer (s ++ ending) = some (text, after)) :
    ∃ rest, after = rest ++ ending ∧ ∀ t, upTo closer (s ++ t) = some (text, rest ++ t) := by
  obtain ⟨closed, shape⟩ := up_to_eq_some plain found
  have shape' : s ++ ending = (text ++ [closer]) ++ after := by simp [shape]
  obtain ⟨rest, rfl, rfl⟩ := split_at_end ends (by simpa using noFeed) shape'
  refine ⟨rest, rfl, fun t => ?_⟩
  rw [List.append_assoc, List.append_assoc, List.singleton_append]
  exact closed (rest ++ t)

/-! ## Affix patterns -/

/-- A first field of `k` characters, `j` white ones after it, and a second field. -/
structure Candidate (body : List Char) (k j : Nat) (field after : List Char) : Prop where
  positive : 0 < k ∧ 0 < j
  free : SpaceFree body k
  white : k + j ≤ body.length ∧ ∀ c ∈ (body.drop k).take j, Unicode.isWhiteSpace c = true
  found : secondField (body.drop (k + j)) = some (field, after)

theorem second_field_eq_some_iff {s field after : List Char} :
    secondField s = some (field, after) ↔ IsField field ∧ s = field ++ ')' :: after := by
  refine ⟨second_field_eq_some, ?_⟩
  rintro ⟨⟨nonempty, taken⟩, rfl⟩
  obtain ⟨c, rest, rfl⟩ := List.exists_cons_of_ne_nil nonempty
  rw [secondField, taken]
  rfl

/-- Where a gap of `j` characters and a second field are found, no longer gap leaves a second field. -/
theorem gap_and_field_eq_some_iff {s text after : List Char} :
    gapAndField s = some (text, after) ↔ ∃ j field, 0 < j ∧
      (j ≤ s.length ∧ ∀ c ∈ s.take j, Unicode.isWhiteSpace c = true) ∧
        secondField (s.drop j) = some (field, after) ∧ text = s.take j ++ field ∧
          ∀ j', j < j' → (j' ≤ s.length ∧ ∀ c ∈ s.take j', Unicode.isWhiteSpace c = true) →
            secondField (s.drop j') = none := by
  rw [gapAndField, longest_eq_some_iff]
  simp only [← le_length_take_while_iff]
  constructor
  · rintro ⟨j, positive, bound, kept, none⟩
    obtain ⟨field, found, shape⟩ := keeping_eq_some kept
    exact ⟨j, field, positive, bound, found, shape, fun j' longer bound' =>
      Option.map_eq_none_iff.mp (none j' longer bound')⟩
  · rintro ⟨j, field, positive, bound, found, rfl, none⟩
    refine ⟨j, positive, bound, by rw [keeping, found]; rfl, fun j' longer bound' => ?_⟩
    rw [keeping, none j' longer bound']
    rfl

theorem gap_and_field_ne_none {s field after : List Char} {j : Nat} (positive : 0 < j)
    (white : j ≤ s.length ∧ ∀ c ∈ s.take j, Unicode.isWhiteSpace c = true)
    (found : secondField (s.drop j) = some (field, after)) : gapAndField s ≠ none := by
  intro absent
  have nothing := longest_eq_none_iff.mp absent j positive (le_length_take_while_iff.mpr white)
  rw [keeping, found] at nothing
  cases nothing

theorem Candidate.gap {body field after : List Char} {k j : Nat} (candidate : Candidate body k j field after) :
    (j ≤ (body.drop k).length ∧ ∀ c ∈ (body.drop k).take j, Unicode.isWhiteSpace c = true) ∧
      secondField ((body.drop k).drop j) = some (field, after) := by
  refine ⟨⟨?_, candidate.white.2⟩, ?_⟩
  · have bound := candidate.white.1
    rw [List.length_drop]
    omega
  · rw [List.drop_drop]
    exact candidate.found

theorem candidate_of_gap {body field after : List Char} {k j : Nat} (positive : 0 < k ∧ 0 < j)
    (free : SpaceFree body k)
    (white : j ≤ (body.drop k).length ∧ ∀ c ∈ (body.drop k).take j, Unicode.isWhiteSpace c = true)
    (found : secondField ((body.drop k).drop j) = some (field, after)) : Candidate body k j field after where
  positive := positive
  free := free
  white := by
    have bound := free.1
    have bound' := white.1
    rw [List.length_drop] at bound'
    exact ⟨by omega, white.2⟩
  found := by rwa [List.drop_drop] at found

/-- The pattern that is found has the longest first field of all candidates, and the longest gap of
those with that field. -/
theorem affix_pattern_greatest {body text after : List Char} :
    affixPattern ('(' :: body) = some (text, after) ↔ ∃ k j field, Candidate body k j field after ∧
      text = body.take (k + j) ++ field ∧
        ∀ k' j' field' after', Candidate body k' j' field' after' → k' < k ∨ k' = k ∧ j' ≤ j := by
  rw [affix_pattern_eq_some_iff]
  simp only [TokenRule.first_after_first_field]
  constructor
  · rintro ⟨k, later, positive, free, gapped, rfl, none⟩
    obtain ⟨j, field, positive', white, found, rfl, none'⟩ := gap_and_field_eq_some_iff.mp gapped
    refine ⟨k, j, field, candidate_of_gap ⟨positive, positive'⟩ free white found,
      by rw [List.take_add, List.append_assoc], fun k' j' field' after' candidate => ?_⟩
    obtain ⟨white', found'⟩ := candidate.gap
    rcases Nat.lt_trichotomy k' k with before | rfl | behind
    · exact .inl before
    · refine .inr ⟨rfl, Nat.le_of_not_lt fun longer => ?_⟩
      rw [none' j' longer white'] at found'
      cases found'
    · exact absurd (none k' behind candidate.free) (gap_and_field_ne_none candidate.positive.2 white' found')
  · rintro ⟨k, j, field, candidate, rfl, greatest⟩
    obtain ⟨white, found⟩ := candidate.gap
    obtain ⟨positive, positive'⟩ := candidate.positive
    refine ⟨k, (body.drop k).take j ++ field, positive, candidate.free, ?_,
      by rw [List.take_add, List.append_assoc], fun k' behind free => ?_⟩
    · refine gap_and_field_eq_some_iff.mpr ⟨j, field, positive', white, found, rfl, fun j' longer white' => ?_⟩
      rw [Option.eq_none_iff_forall_ne_some]
      rintro ⟨field', after'⟩ found'
      have other := candidate_of_gap ⟨positive, Nat.lt_trans positive' longer⟩ candidate.free white' found'
      rcases greatest _ _ _ _ other with before | ⟨-, shorter⟩
      · exact Nat.lt_irrefl k before
      · exact Nat.not_lt_of_le shorter longer
    · rw [Option.eq_none_iff_forall_ne_some]
      rintro ⟨text', after'⟩ gapped
      obtain ⟨j', field', positive'', white', found', -⟩ := gap_and_field_eq_some_iff.mp gapped
      have other := candidate_of_gap ⟨Nat.lt_trans positive behind, positive''⟩ free white' found'
      rcases greatest _ _ _ _ other with before | ⟨rfl, -⟩
      · exact Nat.lt_asymm before behind
      · exact Nat.lt_irrefl _ behind

private theorem last_of_tail {c d : Char} {s : List Char} (last : (c :: s).getLast? ≠ some d) :
    s.getLast? ≠ some d := by
  cases s with
  | nil => exact fun same => nomatch same
  | cons e s => rwa [List.getLast?_cons_cons] at last

/-- A field that goes beyond a text that ends with no backslash goes on as if it started there. -/
theorem field_chars_append {s : List Char} (t : List Char) (last : s.getLast? ≠ some '\\') :
    (fieldChars (s ++ t)).1.length < s.length ∨
      fieldChars (s ++ t) = (s ++ (fieldChars t).1, (fieldChars t).2) := by
  fun_induction fieldChars s with
  | case1 => exact .inr rfl
  | case2 => exact absurd rfl last
  | case3 rest =>
    left
    rw [List.cons_append, List.cons_append, fieldChars, if_pos rfl]
    exact Nat.succ_pos _
  | case4 c rest plain ih =>
    rw [List.cons_append, List.cons_append, fieldChars, if_neg plain]
    rcases ih (last_of_tail (last_of_tail last)) with stops | goesOn
    · left
      simp only [List.length_cons]
      omega
    · right
      rw [goesOn]
      rfl
  | case5 c rest noEnd noCover stop =>
    left
    rw [List.cons_append, field_chars_cons (ne_escape noEnd noCover), if_pos stop]
    exact Nat.succ_pos _
  | case6 c rest noEnd noCover goes ih =>
    rw [List.cons_append, field_chars_cons (ne_escape noEnd noCover), if_neg goes]
    rcases ih (last_of_tail last) with stops | goesOn
    · left
      simp only [List.length_cons]
      omega
    · right
      rw [goesOn]
      rfl

/-- A field goes over a space only behind a backslash, and then on as if it started after the space. -/
theorem field_chars_over_space (s t : List Char) :
    (fieldChars (s ++ ' ' :: t)).1.length ≤ s.length ∨
      fieldChars (s ++ ' ' :: t) = (s ++ ' ' :: (fieldChars t).1, (fieldChars t).2) := by
  fun_induction fieldChars s with
  | case1 =>
    left
    rw [List.nil_append, field_chars_cons (by decide), if_pos (.inl rfl)]
  | case2 =>
    right
    rw [List.singleton_append, fieldChars, if_neg (by decide)]
    rfl
  | case3 rest =>
    left
    rw [List.cons_append, List.cons_append, fieldChars, if_pos rfl]
    exact Nat.zero_le _
  | case4 c rest plain ih =>
    rw [List.cons_append, List.cons_append, fieldChars, if_neg plain]
    refine ih.imp (fun stops => ?_) fun goesOn => ?_
    · simp only [List.length_cons]
      omega
    · rw [goesOn]
      rfl
  | case5 c rest noEnd noCover stop =>
    left
    rw [List.cons_append, field_chars_cons (ne_escape noEnd noCover), if_pos stop]
    exact Nat.zero_le _
  | case6 c rest noEnd noCover goes ih =>
    rw [List.cons_append, field_chars_cons (ne_escape noEnd noCover), if_neg goes]
    refine ih.imp (fun stops => ?_) fun goesOn => ?_
    · simp only [List.length_cons]
      omega
    · rw [goesOn]
      rfl

/-! ### Texts that close a field -/

/-- A closing parenthesis stands in the text before any space, covered characters apart. -/
def ClosesField (s : List Char) : Prop :=
  ∃ i < s.length, s[i]? = some ')' ∧ ¬ CoveredAt s i ∧ ∀ j < i, s[j]? = some ' ' → CoveredAt s j

instance (s : List Char) : Decidable (ClosesField s) :=
  inferInstanceAs (Decidable (∃ i < s.length, _))

theorem ClosesField.cons {c : Char} {s : List Char} (plain : c ≠ '\\') (space : c ≠ ' ')
    (closes : ClosesField s) : ClosesField (c :: s) := by
  obtain ⟨i, bound, here, uncovered, earlier⟩ := closes
  refine ⟨i + 1, Nat.succ_lt_succ bound, here, by rwa [covered_cons plain], ?_⟩
  rintro (_ | j) before blank
  · exact absurd (Option.some.inj blank) space
  · exact (covered_cons plain s j).mpr (earlier j (Nat.lt_of_succ_lt_succ before) blank)

theorem ClosesField.escape {s : List Char} (c : Char) (closes : ClosesField s) :
    ClosesField ('\\' :: c :: s) := by
  obtain ⟨i, bound, here, uncovered, earlier⟩ := closes
  refine ⟨i + 2, Nat.add_lt_add_right bound 2, here, by rwa [covered_escape], ?_⟩
  rintro (_ | _ | j) before blank
  · cases blank
  · exact covered_one c s
  · exact (covered_escape c s j).mpr (earlier j (Nat.lt_of_add_lt_add_right before) blank)

/-- A field that starts before such a text stops at a parenthesis only if the text closes it. -/
theorem closes_field_of_field_chars {s : List Char} (stop : (fieldChars s).2.head? = some ')') :
    ClosesField s := by
  fun_induction fieldChars s with
  | case1 | case2 | case3 => cases stop
  | case4 c rest plain ih => exact (ih stop).escape c
  | case5 c rest noEnd noCover ends =>
    obtain rfl := Option.some.inj stop
    exact ⟨0, Nat.succ_pos _, rfl, not_covered_zero _, fun j before => absurd before (Nat.not_lt_zero j)⟩
  | case6 c rest noEnd noCover goes ih =>
    exact (ih stop).cons (ne_escape noEnd noCover) fun space => goes (.inl space)

/-- What follows counts only with its parentheses. -/
theorem closes_field_append {s t : List Char} (absent : ')' ∉ t) : ClosesField (s ++ t) ↔ ClosesField s := by
  have covered {i : Nat} (inside : i < s.length) : CoveredAt (s ++ t) i ↔ CoveredAt s i := by
    rw [CoveredAt, CoveredAt, backslashesBefore, backslashesBefore,
      List.take_append_of_le_length (Nat.le_of_lt inside)]
  have same {i : Nat} (inside : i < s.length) : (s ++ t)[i]? = s[i]? := List.getElem?_append_left inside
  constructor
  · rintro ⟨i, -, here, uncovered, earlier⟩
    have inside : i < s.length := by
      by_contra beyond
      rw [List.getElem?_append_right (Nat.le_of_not_lt beyond)] at here
      exact absent (List.mem_of_getElem? here)
    refine ⟨i, inside, (same inside).symm.trans here, by rwa [← covered inside], fun j before blank => ?_⟩
    have inside' := Nat.lt_trans before inside
    exact (covered inside').mp (earlier j before ((same inside').trans blank))
  · rintro ⟨i, inside, here, uncovered, earlier⟩
    refine ⟨i, by rw [List.length_append]; omega, (same inside).trans here, by rwa [covered inside],
      fun j before blank => ?_⟩
    have inside' := Nat.lt_trans before inside
    exact (covered inside').mpr (earlier j before ((same inside').symm.trans blank))

/-! ### Candidates in a longer text -/

/-- A field that starts before another one, after no backslash, stops at the end of the other. -/
private theorem field_stops_before {before field : List Char} (isField : IsField field)
    (start : before.getLast? ≠ some '\\') (t : List Char) :
    (fieldChars (before ++ (field ++ ')' :: t))).1.length ≤ (before ++ field).length := by
  rcases field_chars_append (field ++ ')' :: t) start with stops | goesOn
  · exact Nat.le_trans (Nat.le_of_lt stops) (by simp)
  · rw [goesOn, isField.2 t]

/-- A field that starts inside another one, not between a backslash and what it covers, is the rest
of the other. -/
private theorem field_stops_inside {first second : List Char} (isField : IsField (first ++ second))
    (start : first = [] ∨ first.getLast? ≠ some '\\') (t : List Char) :
    (fieldChars (second ++ ')' :: t)).1.length ≤ second.length := by
  have whole := isField.2 t
  rw [List.append_assoc] at whole
  rcases start with rfl | last
  · rw [List.nil_append, List.nil_append] at whole
    rw [whole]
  · rcases field_chars_append (second ++ ')' :: t) last with stops | goesOn
    · rw [whole, List.length_append] at stops
      omega
    · rw [whole] at goesOn
      have same := List.append_cancel_left (congrArg Prod.fst goesOn)
      rw [← same]

/-- A field that starts after no backslash does not go beyond the end of another field. -/
theorem field_stops {before field : List Char} {q : Nat} (isField : IsField field)
    (start : before.getLast? ≠ some '\\') (bound : q ≤ (before ++ field).length)
    (start' : ((before ++ field).take q).getLast? ≠ some '\\') (t : List Char) :
    (fieldChars ((before ++ field ++ ')' :: t).drop q)).1.length + q ≤ (before ++ field).length := by
  rcases Nat.le_total q before.length with early | late
  · have last : (before.drop q).getLast? ≠ some '\\' := by
      rw [List.getLast?_drop]
      split
      · simp
      · exact start
    have stops := field_stops_before isField last t
    rw [List.append_assoc, List.drop_append_of_le_length early]
    rw [List.length_append, List.length_drop] at stops
    rw [List.length_append]
    omega
  · -- The part of the other field before the start is not cut inside a covered character.
    obtain ⟨first, second, rfl, place⟩ : ∃ first second, field = first ++ second ∧
        q = (before ++ first).length := by
      refine ⟨field.take (q - before.length), field.drop (q - before.length),
        (List.take_append_drop ..).symm, ?_⟩
      rw [List.length_append] at bound ⊢
      rw [List.length_take]
      omega
    have last : first = [] ∨ first.getLast? ≠ some '\\' := by
      by_cases none : first = []
      · exact .inl none
      · rw [← List.append_assoc, place, List.take_left, List.getLast?_append_of_ne_nil _ none] at start'
        exact .inr start'
    have stops := field_stops_inside isField last t
    have shape : before ++ (first ++ second) ++ ')' :: t = before ++ first ++ (second ++ ')' :: t) := by
      simp
    rw [shape, place, List.drop_left]
    simp only [List.length_append]
    omega

namespace Candidate

variable {s t field after : List Char} {k j : Nat}

theorem shape (candidate : Candidate s k j field after) :
    IsField field ∧ s.drop (k + j) = field ++ ')' :: after :=
  second_field_eq_some_iff.mp candidate.found

/-- The last character of the gap is white. -/
theorem last_of_gap (candidate : Candidate s k j field after) :
    (s.take (k + j)).getLast? ≠ some '\\' := by
  have bound := candidate.white.1
  have positive := candidate.positive.2
  have nonempty : (s.drop k).take j ≠ [] :=
    List.ne_nil_of_length_pos (by rw [List.length_take, List.length_drop]; omega)
  rw [List.take_add, List.getLast?_append_of_ne_nil _ nonempty]
  intro backslash
  have white := candidate.white.2 '\\' (List.mem_of_getLast? backslash)
  exact absurd white (by decide)

/-- A candidate whose parenthesis is in a text is one whatever follows the text. -/
theorem move (candidate : Candidate (s ++ t) k j field after) (within : k + j + field.length < s.length) :
    ∃ rest, after = rest ++ t ∧ ∀ t', Candidate (s ++ t') k j field (rest ++ t') := by
  obtain ⟨isField, whole⟩ := candidate.shape
  have early : k + j ≤ s.length := by omega
  rw [List.drop_append_of_le_length early] at whole
  obtain ⟨rest, split⟩ : field ++ [')'] <+: s.drop (k + j) := by
    refine List.prefix_of_prefix_length_le ⟨after, ?_⟩ (List.prefix_append _ t) ?_
    · rw [whole, List.append_assoc, List.singleton_append]
    · rw [List.length_append, List.length_drop, List.length_singleton]
      omega
  rw [← split, List.append_assoc, List.append_assoc, List.singleton_append] at whole
  have left := (List.cons.inj (List.append_cancel_left whole)).2
  refine ⟨rest, left.symm, fun t' => ⟨candidate.positive, ?_, ?_, ?_⟩⟩
  · have free := candidate.free.2
    rw [List.take_append_of_le_length (by omega)] at free
    exact ⟨by rw [List.length_append]; omega, by rwa [List.take_append_of_le_length (by omega)]⟩
  · have white := candidate.white.2
    have inside : j ≤ (s.drop k).length := by
      rw [List.length_drop]
      omega
    rw [List.drop_append_of_le_length (by omega), List.take_append_of_le_length inside] at white
    refine ⟨by rw [List.length_append]; omega, ?_⟩
    rwa [List.drop_append_of_le_length (by omega), List.take_append_of_le_length inside]
  · rw [List.drop_append_of_le_length early, ← split]
    exact second_field_eq_some_iff.mpr ⟨isField, by simp⟩

/-- A candidate has its parenthesis in a text if nothing that follows the text is a parenthesis. -/
theorem within_of_no_parenthesis (candidate : Candidate (s ++ t) k j field after) (absent : ')' ∉ t) :
    k + j + field.length < s.length := by
  obtain ⟨-, whole⟩ := candidate.shape
  by_contra beyond
  have here : (s ++ t)[k + j + field.length]? = some ')' := by
    rw [← List.getElem?_drop, whole]
    simp
  rw [List.getElem?_append_right (by omega)] at here
  exact absent (List.mem_of_getElem? here)

/-- With a note behind the text, a second field starts no later than at the note's semicolon. -/
theorem start_le_of_note {u : List Char} (candidate : Candidate (s ++ ' ' :: ';' :: u) k j field after) :
    k + j ≤ s.length + 1 := by
  have early : k ≤ s.length := by
    by_contra beyond
    have space : ' ' ∈ (s ++ ' ' :: ';' :: u).take k := by
      rw [List.take_append, show k - s.length = k - s.length - 1 + 1 by omega, List.take_succ_cons]
      exact List.mem_append_right _ (List.mem_cons_self ..)
    exact candidate.free.2 space
  by_contra beyond
  have inside : (((s ++ ' ' :: ';' :: u).drop k).take j)[s.length + 1 - k]? = some ';' := by
    rw [List.getElem?_take_of_lt (by omega), List.getElem?_drop, Nat.add_sub_of_le (by omega),
      List.getElem?_append_right (by omega), Nat.add_sub_cancel_left]
    rfl
  have white := candidate.white.2 ';' (List.mem_of_getElem? inside)
  exact absurd white (by decide)

/-- A candidate has its parenthesis in a text if a note follows that closes no field. -/
theorem within_of_unclosed {u : List Char} (candidate : Candidate (s ++ ' ' :: ';' :: u) k j field after)
    (unclosed : (fieldChars u).2.head? ≠ some ')') : k + j + field.length < s.length := by
  obtain ⟨⟨-, taken⟩, whole⟩ := candidate.shape
  have stop : (fieldChars (';' :: u)).2.head? ≠ some ')' := by
    rwa [field_chars_cons (by decide), if_neg (by decide)]
  rcases Nat.lt_or_eq_of_le candidate.start_le_of_note with before | last
  · have within : k + j ≤ s.length := Nat.le_of_lt_succ before
    rw [List.drop_append_of_le_length within] at whole
    have reached : fieldChars (s.drop (k + j) ++ ' ' :: ';' :: u) = (field, ')' :: after) := by
      rw [whole, taken]
    rcases field_chars_over_space (s.drop (k + j)) (';' :: u) with stops | goesOn
    · rw [reached] at stops
      change field.length ≤ (s.drop (k + j)).length at stops
      -- The field does not end at the note's space, since a parenthesis stands behind it.
      have apart : field.length ≠ (s.drop (k + j)).length := by
        intro same
        have first := (List.append_inj whole same.symm).2
        cases first
      rw [List.length_drop] at stops apart
      omega
    · rw [reached] at goesOn
      exact absurd (by rw [← congrArg Prod.snd goesOn]; rfl) stop
  · have behind : (s ++ ' ' :: ';' :: u).drop (k + j) = ';' :: u := by
      rw [last, ← List.drop_drop, List.drop_left]
      rfl
    rw [behind] at whole
    exact absurd (by rw [whole, taken]; rfl) stop

/-- A candidate has its parenthesis in a text that holds a whole pattern with a space. -/
theorem within_of_space {before other rest : List Char} (isField : IsField other)
    (last : before.getLast? ≠ some '\\') (space : ' ' ∈ before ++ other)
    (candidate : Candidate (before ++ other ++ ')' :: rest ++ t) k j field after) :
    k + j + field.length ≤ (before ++ other).length := by
  have early : k ≤ (before ++ other).length := by
    by_contra beyond
    have free := candidate.free.2
    rw [List.append_assoc, List.take_append, List.take_of_length_le (by omega)] at free
    exact free (List.mem_append_left _ space)
  have white : k + j ≤ (before ++ other).length := by
    by_contra beyond
    have inside : (((before ++ other ++ ')' :: rest ++ t).drop k).take j)[(before ++ other).length - k]? =
        some ')' := by
      rw [List.getElem?_take_of_lt (by omega), List.getElem?_drop, Nat.add_sub_of_le early]
      simp
    have closes := candidate.white.2 ')' (List.mem_of_getElem? inside)
    exact absurd closes (by decide)
  have start := candidate.last_of_gap
  rw [List.append_assoc, List.take_append_of_le_length white] at start
  have stops := field_stops isField last white start (rest ++ t)
  obtain ⟨⟨-, taken⟩, whole⟩ := candidate.shape
  rw [List.append_assoc, List.cons_append] at whole
  rw [whole, taken after, Nat.add_comm] at stops
  exact stops

end Candidate

/-- An affix pattern that has a space is found with anything behind its line, and any affix pattern is
with a note that closes no field. -/
theorem affix_pattern_append {s ending t text after : List Char} (ends : ending = [] ∨ ending = ['\n'])
    (found : affixPattern ('(' :: (s ++ ending)) = some (text, after))
    (safe : ' ' ∈ text ∨ ∃ u, t = ' ' :: ';' :: u ∧ (fieldChars u).2.head? ≠ some ')') :
    ∃ rest, after = rest ++ ending ∧ affixPattern ('(' :: (s ++ t)) = some (text, rest ++ t) := by
  obtain ⟨-, shape⟩ := affix_pattern_eq_some found
  have shape' : s ++ ending = (text ++ [')']) ++ after := by
    rw [List.append_assoc, List.singleton_append]
    exact (List.cons.inj shape).2
  obtain ⟨rest, rfl, rfl⟩ := split_at_end ends (by simp) shape'
  obtain ⟨k, j, field, candidate, taken, greatest⟩ := affix_pattern_greatest.mp found
  have length : k + j + field.length = text.length := by
    have bound := candidate.white.1
    rw [taken, List.length_append, List.length_take]
    omega
  have within : k + j + field.length < (text ++ [')'] ++ rest).length := by
    rw [length, List.append_assoc, List.length_append, List.length_append, List.length_singleton]
    omega
  obtain ⟨rest', same, moved⟩ := candidate.move within
  obtain rfl := List.append_cancel_right same
  have early (u : List Char) : (text ++ [')'] ++ rest ++ u).take (k + j) = text.take (k + j) := by
    rw [List.append_assoc, List.append_assoc, List.take_append_of_le_length (by omega)]
  rw [early] at taken
  refine ⟨rest, rfl, affix_pattern_greatest.mpr ⟨k, j, field, moved t, by rw [early, ← taken],
    fun k' j' field' after' other => ?_⟩⟩
  have inside : k' + j' + field'.length < (text ++ [')'] ++ rest).length := by
    rcases safe with space | ⟨u, rfl, unclosed⟩
    · have last := candidate.last_of_gap
      rw [early] at last
      have whole : text ++ [')'] ++ rest ++ t = text.take (k + j) ++ field ++ ')' :: rest ++ t := by
        rw [← taken]
        simp
      rw [whole] at other
      have bound := other.within_of_space candidate.shape.1 last (taken ▸ space)
      rw [← taken] at bound
      rw [List.append_assoc, List.length_append, List.length_append, List.length_singleton]
      omega
    · exact other.within_of_unclosed unclosed
  obtain ⟨_, rfl, moved'⟩ := other.move inside
  exact greatest _ _ _ _ (moved' ending)

end Lexeme

end TypeDescription
