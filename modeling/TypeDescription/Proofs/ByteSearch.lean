import TypeDescription.Proofs.Encoding
import TypeDescription.Proofs.Scanning

/-!
The search for a closing delimiter on bytes. An index goes over the bytes of a line, past two of them
at a backslash, so that it may come to stand inside a character or behind the end of the line; what a
line leaves unclosed is put aside, and the search begins anew on the next line. The bytes of a delimiter
and of a backslash are in the encoding of no other character. So the search stops only where a character
starts, and it finds on every line what a search of the characters finds there.
-/

namespace TypeDescription

/-- A search for a closing delimiter on the bytes of a line. -/
structure ByteSearch where
  /-- The text that the lines before have added. -/
  text : List UInt8
  number : Nat
  line : List UInt8
  /-- Where the text starts on this line. -/
  start : Nat
  /-- The byte that is looked at next. -/
  index : Nat
  /-- The lines that have not been read. -/
  later : List (List UInt8)

/-- A text that has been found, and the place behind its closing delimiter. -/
structure BytePlace where
  text : List UInt8
  number : Nat
  line : List UInt8
  index : Nat
  later : List (List UInt8)
  deriving DecidableEq, Repr

/-- What one step of a search comes to. -/
inductive ByteMove where
  | on (next : ByteSearch)
  | found (place : BytePlace)
  | exhausted

namespace ByteSearch

/-- The byte of a backslash, which covers the byte after it. -/
def backslash : UInt8 := 92

/-- What is left of this line is text, and the next one is read. -/
def turn (s : ByteSearch) (next : List UInt8) (later : List (List UInt8)) : ByteSearch :=
  { text := s.text ++ s.line.drop s.start, number := s.number + 1, line := next, start := 0, index := 0, later }

/-- Looks at one byte, or reads one line. -/
def step (closer : List UInt8) (s : ByteSearch) : ByteMove :=
  if s.index < s.line.length then
    if closer.isPrefixOf (s.line.drop s.index) then
      .found
        { text := s.text ++ (s.line.take s.index).drop s.start, number := s.number, line := s.line
          index := s.index + closer.length, later := s.later }
    else .on { s with index := s.index + if s.line[s.index]? = some backslash then 2 else 1 }
  else
    match s.later with
    | next :: later => .on (s.turn next later)
    | [] => .exhausted

/-- The bytes and the lines that are left. -/
def size (s : ByteSearch) : Nat := s.line.length - s.index + s.later.flatten.length + s.later.length

theorem size_of_step {closer : List UInt8} {s next : ByteSearch} (stepped : s.step closer = .on next) :
    next.size < s.size := by
  rw [step] at stepped
  split at stepped
  · next inside =>
    split at stepped
    · cases stepped
    · cases stepped
      simp only [size]
      split <;> omega
  · split at stepped
    · next line later more =>
      cases stepped
      simp only [size, turn, more, List.flatten_cons, List.length_append, List.length_cons]
      omega
    · cases stepped

/-- Steps until the delimiter is found or no line is left. -/
def run (closer : List UInt8) (s : ByteSearch) : Option BytePlace :=
  match _stepped : s.step closer with
  | .on next => run closer next
  | .found place => some place
  | .exhausted => none
termination_by s.size
decreasing_by exact size_of_step _stepped

theorem run_of_step {closer : List UInt8} {s : ByteSearch} :
    s.run closer = match s.step closer with
      | .on next => next.run closer
      | .found place => some place
      | .exhausted => none := by
  rw [run]
  split <;> simp_all

/-- What this many steps come to, or fewer if the search is over before. -/
def moves (closer : List UInt8) : Nat → ByteSearch → ByteMove
  | 0, s => .on s
  | steps + 1, s =>
    match s.step closer with
    | .on next => moves closer steps next
    | last => last

/-- How a search is over. -/
def ending (closer : List UInt8) (s : ByteSearch) : ByteMove :=
  match s.run closer with
  | some place => .found place
  | none => .exhausted

/-- The search is over after one step for each byte and each line that is left. -/
theorem moves_of_size_lt {closer : List UInt8} {s : ByteSearch} {steps : Nat} (enough : s.size < steps) :
    s.moves closer steps = s.ending closer := by
  induction steps generalizing s with
  | zero => exact absurd enough (Nat.not_lt_zero _)
  | succ steps ih =>
    rw [moves, ending, run_of_step]
    cases stepped : s.step closer with
    | on next => exact ih (Nat.lt_of_lt_of_le (size_of_step stepped) (Nat.le_of_lt_succ enough))
    | found place => rfl
    | exhausted => rfl

end ByteSearch

namespace Enclosure

/-- A text that is enclosed from this place of a line on is searched for. -/
def search (number : Nat) (line : List UInt8) (start : Nat) (later : List (List UInt8)) : ByteSearch :=
  { text := [], number, line, start, index := start, later }

/-- The fault of a text that this line opens and no line closes: the failure of the reader on the next line, if
it fails, and otherwise the line that opens the text is blamed. -/
def endFault (enclosure : Enclosure) (failure : Option String) (number read : Nat) : Error :=
  match failure with
  | some reason => .onLine (.unreadable reason) (read + 1)
  | none => .onLine enclosure.unterminated number

/-- The bytes of an enclosed text, and the place behind its closing delimiter. -/
def bounded (enclosure : Enclosure) (failure : Option String) (number : Nat) (line : List UInt8) (start : Nat)
    (later : List (List UInt8)) : Except Error BytePlace :=
  match (search number line start later).run (encode enclosure.closer) with
  | some place => .ok place
  | none => .error (enclosure.endFault failure number (number + later.length))

/-- The search for an enclosed text is over after one step for each byte and each line that is left. -/
theorem moves_of_search (enclosure : Enclosure) (failure : Option String) (number : Nat) (line : List UInt8)
    (start : Nat) (later : List (List UInt8)) :
    let search := search number line start later
    search.moves (encode enclosure.closer) (search.size + 1) =
      match enclosure.bounded failure number line start later with
      | .ok place => .found place
      | .error _ => .exhausted := by
  intro search
  rw [ByteSearch.moves_of_size_lt (Nat.lt_succ_self _), ByteSearch.ending, bounded]
  cases search.run (encode enclosure.closer) <;> rfl

end Enclosure

/-! ## Bytes and characters -/

theorem drop_encode (first second : List Char) :
    (encode (first ++ second)).drop (encode first).length = encode second := by
  rw [encode_append, List.drop_left]

/-- The bytes of a text begin with those of another text only if the text begins with it. -/
theorem encode_prefix_iff {first text : List Char} : encode first <+: encode text ↔ first <+: text := by
  constructor
  · rintro ⟨more, same⟩
    refine List.isPrefix_of_utf8Encode_append_eq_utf8Encode ⟨more.toArray⟩ ?_
    rw [utf8_encode_eq, utf8_encode_eq, ← same]
    exact ByteArray.ext (by simp)
  · rintro ⟨more, rfl⟩
    exact ⟨encode more, (encode_append first more).symm⟩

theorem encode_injective : Function.Injective encode := by
  intro first second same
  have starts : first <+: second := encode_prefix_iff.mp (same ▸ List.prefix_rfl)
  have starts' : second <+: first := encode_prefix_iff.mp (same ▸ List.prefix_rfl)
  exact starts.eq_of_length_le starts'.length_le

/-! ## Searching a line -/

/-- A delimiter in one byte for each character at least at its start, which is no backslash. -/
structure IsDelimiter (closer : List Char) : Prop where
  starts : ∃ d ds, closer = d :: ds ∧ d.toNat < 128
  plain : '\\' ∉ closer

theorem is_delimiter (enclosure : Enclosure) : IsDelimiter enclosure.closer where
  starts := by cases enclosure <;> exact ⟨_, _, rfl, by decide⟩
  plain := (plain_closer enclosure).1

theorem encode_small {c : Char} (small : c.toNat < 128) :
    ∃ byte, String.utf8EncodeChar c = [byte] ∧ byte.toNat = c.toNat := by
  rcases encode_char_cases c with ⟨-, single⟩ | ⟨large, -⟩
  · refine ⟨_, single, ?_⟩
    rw [UInt8.toNat_ofNat', Nat.mod_eq_of_lt (Nat.lt_trans small (by decide))]
  · exact absurd small (Nat.not_lt.mpr large)

namespace IsDelimiter

variable {closer : List Char} (delimiter : IsDelimiter closer)

include delimiter

theorem ne_nil : closer ≠ [] := by
  obtain ⟨d, ds, rfl, -⟩ := delimiter.starts
  exact List.cons_ne_nil d ds

/-- No high byte is the first one of a delimiter. -/
theorem apart_of_high {byte : UInt8} (high : 128 ≤ byte) (more : List UInt8) :
    ¬ encode closer <+: byte :: more := by
  obtain ⟨d, ds, rfl, small⟩ := delimiter.starts
  obtain ⟨first, single, number⟩ := encode_small small
  rw [encode_cons, single, List.singleton_append, List.cons_prefix_cons]
  rintro ⟨rfl, -⟩
  rw [UInt8.le_iff_toNat_le, number] at high
  exact absurd small (Nat.not_lt.mpr high)

theorem apart_of_escape (rest : List Char) : ¬ closer <+: '\\' :: rest := by
  obtain ⟨d, ds, rfl, -⟩ := delimiter.starts
  rw [List.cons_prefix_cons]
  rintro ⟨rfl, -⟩
  exact delimiter.plain (List.mem_cons_self ..)

end IsDelimiter

namespace ByteSearch

variable {closer rest : List Char} {c : Char} {s : ByteSearch}

/-- The search on the lines after this one, which leaves the text unclosed. -/
def onLater (bytes : List UInt8) (s : ByteSearch) : Option BytePlace :=
  match s.later with
  | next :: later => (s.turn next later).run bytes
  | [] => none

/-- What the search comes to if these characters are found from here on, up to the delimiter and after it,
or if nothing is. -/
def answer (closer : List Char) (s : ByteSearch) : Option (List Char × List Char) → Option BytePlace
  | some (text, _) => some
    { text := s.text ++ (s.line.take (s.index + (encode text).length)).drop s.start, number := s.number
      line := s.line, index := s.index + (encode (text ++ closer)).length, later := s.later }
  | none => s.onLater (encode closer)

/-- What has been passed belongs to the text. -/
theorem answer_past (front : List Char) (found : Option (List Char × List Char)) :
    answer closer { s with index := s.index + (encode front).length } found =
      s.answer closer (found.map fun (text, after) => (front ++ text, after)) := by
  cases found with
  | none => rfl
  | some found =>
    obtain ⟨text, after⟩ := found
    simp only [answer, Option.map_some, List.append_assoc, encode_append front, List.length_append, Nat.add_assoc]

/-- What is left behind a part of the rest of a line. -/
theorem drop_past {first more : List UInt8} (here : s.line.drop s.index = first ++ more) :
    s.line.drop (s.index + first.length) = more := by
  rw [← List.drop_drop, here, List.drop_left]

/-- Behind the end of a line the next one is read. -/
theorem run_past (bytes : List UInt8) (past : s.line.drop s.index = []) : s.run bytes = s.onLater bytes := by
  rw [run_of_step, step, if_neg (Nat.not_lt.mpr (List.drop_eq_nil_iff.mp past)), onLater]
  cases s.later <;> rfl

/-- There is a byte on the line where something is left of it. -/
theorem inside_of_drop {byte : UInt8} {more : List UInt8} (here : s.line.drop s.index = byte :: more) :
    s.index < s.line.length ∧ s.line[s.index]? = some byte := by
  constructor
  · by_contra past
    rw [List.drop_eq_nil_of_le (Nat.le_of_not_lt past)] at here
    cases here
  · rw [← List.head?_drop, here]
    rfl

/-- A byte at which no delimiter starts is passed, and the next one with it if it is a backslash. -/
theorem run_on {bytes more : List UInt8} {byte : UInt8} (here : s.line.drop s.index = byte :: more)
    (apart : ¬ bytes <+: byte :: more) :
    s.run bytes = run bytes { s with index := s.index + if byte = backslash then 2 else 1 } := by
  obtain ⟨inside, looked⟩ := inside_of_drop here
  rw [run_of_step, step, if_pos inside, here, if_neg (by rwa [List.isPrefixOf_iff_prefix]), looked]
  simp only [Option.some.injEq]

section Delimiter

variable (delimiter : IsDelimiter closer)

include delimiter

/-- High bytes start no delimiter and cover nothing, wherever the search comes upon them. -/
theorem run_high {high more : List UInt8} (all : ∀ byte ∈ high, 128 ≤ byte)
    (here : s.line.drop s.index = high ++ more) :
    s.run (encode closer) = run (encode closer) { s with index := s.index + high.length } := by
  induction high generalizing s with
  | nil => rfl
  | cons byte high ih =>
    obtain ⟨first, others⟩ := List.forall_mem_cons.mp all
    have plain : byte ≠ backslash := by
      rintro rfl
      exact absurd first (by decide)
    have shape : s.line.drop s.index = [byte] ++ (high ++ more) := here
    have next := ih others (s := { s with index := s.index + 1 }) (drop_past shape)
    rw [run_on here (delimiter.apart_of_high first _), if_neg plain, next, List.length_cons, Nat.add_assoc,
      Nat.add_comm 1]

/-- A character at which no delimiter starts is passed, if it is no backslash. -/
theorem run_plain (plain : c ≠ '\\') (apart : ¬ closer <+: c :: rest)
    (here : s.line.drop s.index = encode (c :: rest)) :
    s.run (encode closer) = run (encode closer) { s with index := s.index + (encode [c]).length } := by
  have alone : encode [c] = String.utf8EncodeChar c := List.append_nil _
  rw [alone]
  rcases encode_char_cases c with ⟨small, -⟩ | ⟨-, high⟩
  · obtain ⟨byte, single, number⟩ := encode_small small
    have other : byte ≠ backslash := by
      rintro rfl
      exact plain (Char.toNat_inj.mp number.symm)
    have apart' : ¬ encode closer <+: encode (c :: rest) := mt encode_prefix_iff.mp apart
    rw [encode_cons, single, List.singleton_append] at here apart'
    rw [run_on here apart', if_neg other, single, List.length_singleton]
  · exact run_high delimiter high here

/-- A backslash is passed with the byte after it. -/
theorem run_backslash {rest : List Char} (here : s.line.drop s.index = encode ('\\' :: rest)) :
    s.run (encode closer) = run (encode closer) { s with index := s.index + 2 } := by
  have shape : encode ('\\' :: rest) = backslash :: encode rest := rfl
  have apart := mt encode_prefix_iff.mp (delimiter.apart_of_escape rest)
  rw [shape] at here apart
  rw [run_on here apart, if_pos rfl]

/-- The other bytes of the character after a backslash are passed one by one. -/
theorem run_escape (here : s.line.drop s.index = encode ('\\' :: c :: rest)) :
    s.run (encode closer) = run (encode closer) { s with index := s.index + (encode ['\\', c]).length } := by
  obtain ⟨first, others, bytes⟩ := List.exists_cons_of_ne_nil (String.utf8EncodeChar_ne_nil (c := c))
  have high : ∀ byte ∈ others, 128 ≤ byte := by
    rcases encode_char_cases c with ⟨-, single⟩ | ⟨-, high⟩
    · rw [single] at bytes
      obtain ⟨-, rfl⟩ := List.cons.inj bytes
      exact fun _ member => nomatch member
    · rw [bytes] at high
      exact fun byte member => high byte (List.mem_cons_of_mem _ member)
  have pair : encode ['\\', c] = [backslash, first] ++ others := by
    rw [encode_cons, encode_cons, bytes]
    exact congrArg (backslash :: ·) (List.append_nil _)
  have shape : encode ('\\' :: c :: rest) = [backslash, first] ++ (others ++ encode rest) := by
    rw [← List.append_assoc, ← pair, ← encode_append]
    rfl
  have covered := drop_past (here.trans shape)
  rw [run_backslash delimiter here, run_high delimiter (s := { s with index := s.index + 2 }) high covered, pair,
    List.length_append, Nat.add_assoc]
  rfl

/-- At a delimiter the search is over. -/
theorem run_found {after : List Char} (here : s.line.drop s.index = encode (closer ++ after)) :
    s.run (encode closer) = s.answer closer (some ([], after)) := by
  obtain ⟨d, ds, shape, small⟩ := delimiter.starts
  obtain ⟨byte, single, -⟩ := encode_small small
  have first : encode (closer ++ after) = byte :: encode (ds ++ after) := by
    rw [shape, List.cons_append, encode_cons, single, List.singleton_append]
  have starts : encode closer <+: encode (closer ++ after) := encode_prefix_iff.mpr (List.prefix_append ..)
  obtain ⟨inside, -⟩ := inside_of_drop (here.trans first)
  rw [run_of_step, step, if_pos inside, here, if_pos (List.isPrefixOf_iff_prefix.mpr starts)]
  rfl

/-- On the rest of a line the search of the bytes finds what a search of the characters finds, and
otherwise it goes on on the next line. -/
theorem run_line {body : List Char} (here : s.line.drop s.index = encode body) :
    s.run (encode closer) = s.answer closer (upToCloser closer body) := by
  fun_induction upToCloser closer body generalizing s with
  | case1 => exact run_past _ here
  | case2 =>
    have alone : s.line.drop s.index = [backslash] ++ [] := here
    have behind : s.line.drop (s.index + 1) = [] := drop_past alone
    have past : s.line.drop (s.index + 2) = [] := by
      rw [← List.drop_drop (i := 1), behind]
      rfl
    rw [run_backslash delimiter here]
    exact run_past (s := { s with index := s.index + 2 }) _ past
  | case3 c rest ih =>
    have next := ih (s := { s with index := s.index + (encode ['\\', c]).length })
      (drop_past (here.trans (encode_append ['\\', c] rest)))
    rw [run_escape delimiter here, next, answer_past]
    rfl
  | case4 c rest noEnd noCover after closed =>
    have shape := List.isPrefixOf?_eq_some_iff_append_eq.mp closed
    exact run_found delimiter (shape ▸ here)
  | case5 c rest noEnd noCover apart ih =>
    have plain := ne_escape noEnd noCover
    have apart' := not_prefix_of_absent apart
    have next := ih (s := { s with index := s.index + (encode [c]).length })
      (drop_past (here.trans (encode_append [c] rest)))
    rw [run_plain delimiter plain apart' here, next, answer_past]
    rfl

end Delimiter

end ByteSearch

end TypeDescription
