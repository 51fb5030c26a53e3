import Mathlib.Data.List.Forall2
import Scriptlet.Document
import Scriptlet.Proofs.Literals

/-!
# Values through JSON

A value is `Storable` if it has no functions, its numbers are in range and the fields of its objects
are constants of different names.  A storable value that is written as JSON, in one line or in
several, is read back as the same value with its fields in the same order (`json_round_trip`).

Reading is followed on the text alone.  `Reads cs d` says that the reader takes a datum `d` off the
front of every text that starts with `cs` and goes on with what may follow a datum; objects are put
together from members that are read in this sense.
-/

namespace Scriptlet

set_option autoImplicit false

variable {ε : Type}

/-! ## Numerals -/

namespace Numeral

/-- Only zero is written with a zero in front. -/
theorem digits_zero_or (n : Nat) : digits n = ['0'] ∨ (digits n).head? ≠ some '0' := by
  fun_induction digits n with
  | case1 n hn =>
    have hzero : ∀ n < 10, [digit n] = ['0'] ∨ [digit n].head? ≠ some '0' := by decide
    exact hzero n hn
  | case2 n hn ih =>
    right
    obtain ⟨c, cs, hcs, _⟩ := exists_digits_cons (n / 10)
    rcases ih with ih | ih
    · have hvalue := value_digits (n / 10)
      rw [ih] at hvalue
      have : n / 10 = 0 := hvalue.symm
      omega
    · rw [hcs] at ih ⊢
      exact ih

end Numeral

namespace Json

/-! ## Scalars -/

/-- A text that may follow a datum: an empty one, or one that starts with a comma, a closing brace
or the end of a line. -/
def Ends (rest : List Char) : Prop :=
  rest = [] ∨ ∃ c more, rest = c :: more ∧ (c = ',' ∨ c = '\x7d' ∨ c = '\n')

/-- The reader takes a datum off the front of every text that starts with `cs`.  Its first character
is a visible one of ASCII. -/
structure Reads (cs : List Char) (d : Data ε) : Prop where
  opens : ∃ c rest, cs = c :: rest ∧ 0x20 < c.toNat ∧ c.toNat < 0x80
  value : ∀ {place : Cursor} {rest : List Char} {fuel : Nat}, place.rest = cs ++ rest → Ends rest →
    cs.length ≤ fuel → ∃ stop, value fuel place = .ok (d, stop) ∧ stop.rest = rest

theorem takeWhile_digits (n : Nat) {rest : List Char} (h : Ends rest) :
    (Numeral.digits n ++ rest).takeWhile Numeral.isDigit = Numeral.digits n := by
  rw [List.takeWhile_append_of_pos fun c hc => Numeral.isDigit_of_mem_digits hc]
  rcases h with rfl | ⟨c, more, rfl, rfl | rfl | rfl⟩
  · simp
  · simp [Numeral.isDigit]
  · simp [Numeral.isDigit]
  · simp [Numeral.isDigit]

theorem fraction?_ends {rest : List Char} (h : Ends rest) : fraction? rest = none := by
  rcases h with rfl | ⟨c, more, rfl, rfl | rfl | rfl⟩ <;> rfl

theorem exponent?_ends {rest : List Char} (h : Ends rest) : exponent? rest = none := by
  rcases h with rfl | ⟨c, more, rfl, rfl | rfl | rfl⟩ <;> rfl

/-- What `number?` finds of a numeral behind its sign. -/
theorem number?_eq {cs rest : List Char} {negative : Bool} {m : Nat}
    (hsign : (cs.head? == some '-') = negative)
    (hbody : (if negative then cs.drop 1 else cs) = Numeral.digits m ++ rest) (h : Ends rest) :
    number? cs = some ⟨negative, Numeral.digits m, none, none,
      (if negative then 1 else 0) + (Numeral.digits m).length⟩ := by
  have hwhile := takeWhile_digits m h
  rcases Numeral.digits_zero_or m with hzero | hzero
  · rw [hzero] at hbody ⊢
    simp only [number?, hsign, hbody]
    simp [fraction?_ends h, exponent?_ends h]
  · obtain ⟨c, cs, hcs, _⟩ := Numeral.exists_digits_cons m
    rw [hcs] at hbody hzero hwhile ⊢
    have hc : c ≠ '0' := fun hc => hzero (congrArg some hc)
    simp only [number?, hsign, hbody]
    rw [List.cons_append] at hwhile ⊢
    simp [hwhile, fraction?_ends h, exponent?_ends h, hc]

/-- A number is read off its numeral. -/
theorem number?_chars (n : Int) {rest : List Char} (h : Ends rest) :
    number? (Numeral.chars n ++ rest) =
      some ⟨decide (n < 0), Numeral.digits n.natAbs, none, none, (Numeral.chars n).length⟩ := by
  cases n with
  | ofNat m =>
    have hminus : ((Numeral.digits m ++ rest).head? == some '-') = false := by
      obtain ⟨c, cs, hcs, hc⟩ := Numeral.exists_digits_cons m
      rw [hcs, List.cons_append, List.head?_cons, beq_eq_false_iff_ne]
      rintro ⟨rfl⟩
      exact absurd hc (by decide)
    have hsign : decide (Int.ofNat m < 0) = false := decide_eq_false (by simp)
    rw [Numeral.chars, number?_eq hminus rfl h, hsign, if_neg Bool.false_ne_true, Nat.zero_add]
    rfl
  | negSucc m =>
    have hsign : decide (Int.negSucc m < 0) = true := decide_eq_true (Int.negSucc_lt_zero m)
    have hminus : (('-' :: Numeral.digits (m + 1) ++ rest).head? == some '-') = true := rfl
    rw [Numeral.chars, number?_eq hminus rfl h, hsign, if_pos rfl, List.length_cons, Nat.add_comm 1]
    rfl

theorem datum_number {n : Int} (h : IsNumber n) (length : Nat) :
    (NumberParts.mk (decide (n < 0)) (Numeral.digits n.natAbs) none none length).datum =
      .ok (.int n : Data ε) := by
  have hlength := Numeral.length_digits_natAbs h
  have hlimit : ¬ Numeral.digitLimit < (Numeral.digits n.natAbs).length := by
    rw [Numeral.digitLimit]
    omega
  have hvalue : (if decide (n < 0) then -(n.natAbs : Int) else n.natAbs) = n := by
    simp only [decide_eq_true_eq]
    split
    · omega
    · omega
  simp only [NumberParts.datum, Option.isNone_none, Bool.and_self, if_true, if_neg hlimit,
    Numeral.value_digits, hvalue]

/-- A numeral starts with a digit, or with a minus sign and a digit. -/
theorem chars_cases (n : Int) : ∃ c cs, Numeral.isDigit c = true ∧
    (Numeral.chars n = c :: cs ∨ Numeral.chars n = '-' :: c :: cs) := by
  cases n with
  | ofNat m =>
    obtain ⟨c, cs, hcs, hc⟩ := Numeral.exists_digits_cons m
    exact ⟨c, cs, hc, .inl hcs⟩
  | negSucc m =>
    obtain ⟨c, cs, hcs, hc⟩ := Numeral.exists_digits_cons (m + 1)
    exact ⟨c, cs, hc, .inr (congrArg _ hcs)⟩

/-- No word that stands for a datum starts like a numeral. -/
theorem words_chars (n : Int) (rest : List Char) :
    (words (ε := ε)).find? (fun w => w.1.isPrefixOf (Numeral.chars n ++ rest)) = none := by
  obtain ⟨c, cs, hc, hcs⟩ := chars_cases n
  have hletter : ∀ w : Char, Numeral.isDigit w = false → w ≠ c := by
    rintro w hw rfl
    exact Bool.false_ne_true (hw.symm.trans hc)
  have hI := hletter 'I' (by decide)
  rcases hcs with hcs | hcs
  · have hn := hletter 'n' (by decide)
    have ht := hletter 't' (by decide)
    have hf := hletter 'f' (by decide)
    have hN := hletter 'N' (by decide)
    have hminus := hletter '-' (by decide)
    simp [words, hcs, hn, ht, hf, hN, hI, hminus]
  · simp [words, hcs, hI]

theorem scalar_number {n : Int} (h : IsNumber n) {place : Cursor} {rest : List Char}
    (hp : place.rest = Numeral.chars n ++ rest) (hr : Ends rest) :
    ∃ stop, scalar place = .ok ((.int n : Data ε), stop) ∧ stop.rest = rest := by
  refine ⟨place.advance (Numeral.chars n).length, ?_, ?_⟩
  · simp only [scalar, hp, words_chars, number?_chars n hr, datum_number h]
    rfl
  · rw [Cursor.rest_advance, hp, List.drop_left]

/-! ## Strings -/

theorem rest_advance_one {place : Cursor} {c : Char} {rest : List Char}
    (h : place.rest = c :: rest) : (place.advance 1).rest = rest := by
  rw [Cursor.rest_advance, h, List.drop_one, List.tail_cons]

theorem hexValue?_hexDigit : ∀ n < 16, hexValue? (Text.hexDigit n) = some n := by decide

/-- Four hexadecimal digits are read as the number that they are written for. -/
theorem hex4?_hexDigits {n : Nat} (h : n < 0x10000) (c : Char) (rest : List Char) :
    hex4? (Text.hexDigits 4 n ++ c :: rest) = some n := by
  have hdigit (m : Nat) : hexValue? (Text.hexDigit (m % 16)) = some (m % 16) :=
    hexValue?_hexDigit _ (Nat.mod_lt m (by decide))
  simp only [Text.hexDigits, List.nil_append, List.cons_append, hex4?, hdigit, Option.bind_eq_bind,
    Option.bind_some, Option.pure_def, Option.some.injEq]
  omega

/-- A character of a string is written as a simple escape, as an escape by number, or as itself. -/
theorem writeChar_cases (c : Char) :
    (∃ e, escape? e = some c ∧ writeChar c = ['\\', e]) ∨
    (c.toNat < 0x20 ∧ writeChar c = '\\' :: 'u' :: Text.hexDigits 4 c.toNat) ∨
    (c ≠ '"' ∧ c ≠ '\\' ∧ ¬ c.toNat < 0x20 ∧ writeChar c = [c]) := by
  unfold writeChar
  split
  · next h => exact .inl ⟨'"', by rw [h]; rfl, rfl⟩
  split
  · next h => exact .inl ⟨'\\', by rw [h]; rfl, rfl⟩
  split
  · next h => exact .inl ⟨'n', h ▸ rfl, rfl⟩
  split
  · next h => exact .inl ⟨'r', h ▸ rfl, rfl⟩
  split
  · next h => exact .inl ⟨'t', h ▸ rfl, rfl⟩
  split
  · next h => exact .inl ⟨'f', h ▸ rfl, rfl⟩
  split
  · next h => exact .inl ⟨'b', h ▸ rfl, rfl⟩
  split
  · next h => exact .inr (.inl ⟨h, rfl⟩)
  · next hquote hslash _ _ _ _ _ hcontrol => exact .inr (.inr ⟨hquote, hslash, hcontrol, rfl⟩)

/-- A character that is written in a string is read as itself, and the rest of the string behind it.
An escape by number needs one more character behind its digits. -/
theorem stringBody_writeChar {place : Cursor} {c : Char} {more : List Char}
    (h : place.rest = writeChar c ++ more) (hmore : more ≠ []) (opening : Cursor) (fuel : Nat) :
    ∃ next : Cursor, next.rest = more ∧ stringBody opening (fuel + 1) place =
      (stringBody opening fuel next).map fun (cs, stop) => (c :: cs, stop) := by
  rcases writeChar_cases c with ⟨e, he, hw⟩ | ⟨hcontrol, hw⟩ | ⟨hquote, hslash, hcontrol, hw⟩
  · have hu : e ≠ 'u' := by
      rintro rfl
      cases he
    rw [hw] at h
    refine ⟨(place.advance 1).advance 1, by simp [Cursor.rest_advance, h], ?_⟩
    rw [stringBody, h]
    simp [he]
    rfl
  · obtain ⟨m, ms, rfl⟩ := List.exists_cons_of_ne_nil hmore
    rw [hw] at h
    have hhex := hex4?_hexDigits (n := c.toNat) (by omega) m ms
    have hlow (last : Nat) : (0xd800 ≤ c.toNat && c.toNat ≤ last) = false := by
      rw [Bool.and_eq_false_iff, decide_eq_false_iff_not]
      omega
    have hcharacter : character c.toNat = .ok c := by
      rw [character, hlow, if_neg Bool.false_ne_true, Char.ofNat_toNat]
    refine ⟨(place.advance 1).advance 5, by simp [Cursor.rest_advance, h, Text.hexDigits], ?_⟩
    rw [stringBody, h]
    simp [hhex, hlow, hcharacter]
    rfl
  · rw [hw] at h
    refine ⟨place.advance 1, by simp [Cursor.rest_advance, h], ?_⟩
    rw [stringBody, h]
    simp [hquote, hslash, hcontrol]
    rfl

/-- A string is read as it is written, with whatever follows. -/
theorem stringBody_written (opening : Cursor) {cs rest : List Char} {place : Cursor} {fuel : Nat}
    (h : place.rest = cs.flatMap writeChar ++ '"' :: rest) (hf : cs.length < fuel) :
    ∃ stop, stringBody opening fuel place = .ok (cs, stop) ∧ stop.rest = rest := by
  induction cs generalizing place fuel with
  | nil =>
    obtain ⟨fuel, rfl⟩ := Nat.exists_eq_add_one_of_ne_zero (Nat.ne_of_gt hf)
    refine ⟨place.advance 1, ?_, by simp [Cursor.rest_advance, h]⟩
    rw [stringBody, h]
    rfl
  | cons c cs ih =>
    obtain ⟨fuel, rfl⟩ := Nat.exists_eq_add_one_of_ne_zero (Nat.ne_of_gt (Nat.zero_lt_of_lt hf))
    rw [List.flatMap_cons, List.append_assoc] at h
    obtain ⟨next, hnext, hchar⟩ := stringBody_writeChar h (by simp) opening fuel
    obtain ⟨stop, hbody, hstop⟩ := ih hnext (Nat.lt_of_succ_lt_succ hf)
    exact ⟨stop, by rw [hchar, hbody]; rfl, hstop⟩

theorem length_le_flatMap_writeChar (cs : List Char) :
    cs.length ≤ (cs.flatMap writeChar).length := by
  induction cs with
  | nil => exact Nat.zero_le _
  | cons c cs ih =>
    have hc : 1 ≤ (writeChar c).length := by
      rcases writeChar_cases c with ⟨e, _, hw⟩ | ⟨_, hw⟩ | ⟨_, _, _, hw⟩
      all_goals simp [hw]
    rw [List.flatMap_cons, List.length_append, List.length_cons]
    omega

theorem toList_writeString (s : String) :
    (writeString s).toList = '"' :: (s.toList.flatMap writeChar ++ ['"']) :=
  String.toList_ofList

theorem string_written {s : String} {rest : List Char} {place : Cursor}
    (h : place.rest = (writeString s).toList ++ rest) :
    ∃ stop, string place = .ok (s.toList, stop) ∧ stop.rest = rest := by
  rw [toList_writeString] at h
  refine stringBody_written place (by simp [Cursor.rest_advance, h]) ?_
  have hlength := length_le_flatMap_writeChar s.toList
  simp only [h, List.cons_append, List.length_cons, List.length_append]
  omega

/-! ## Objects -/

/-- Blanks in front of what is no blank are passed over. -/
theorem rest_skip {place : Cursor} {blanks rest : List Char} {c : Char}
    (h : place.rest = blanks ++ c :: rest) (hb : ∀ b ∈ blanks, isSpace b = true)
    (hc : isSpace c = false) : (skip place).rest = c :: rest := by
  rw [skip, Cursor.rest_advance, h, List.takeWhile_append_of_pos hb,
    List.takeWhile_cons_of_neg (by simp [hc]), List.append_nil, List.drop_left]

theorem rest_skip_none {place : Cursor} {rest : List Char} {c : Char} (h : place.rest = c :: rest)
    (hc : isSpace c = false) : (skip place).rest = c :: rest :=
  rest_skip h (List.forall_mem_nil _) hc

namespace Layout

/-- The edge of a layout is empty or the start of a new line. -/
theorem edge_cases (l : Layout) :
    l.edge.toList = [] ∨ ∃ n, l.edge.toList = '\n' :: List.replicate n ' ' := by
  cases l with
  | none => exact .inl rfl
  | some n =>
    refine .inr ⟨2 * n, ?_⟩
    simp [edge, String.toList_append, String.toList_ofList]

theorem edge_blank (l : Layout) : ∀ b ∈ l.edge.toList, isSpace b = true := by
  rcases l.edge_cases with h | ⟨n, h⟩
  · simp [h]
  · rw [h, List.forall_mem_cons]
    refine ⟨rfl, ?_⟩
    intro b hb
    rw [List.eq_of_mem_replicate hb]
    rfl

/-- What stands behind the last member of an object ends its datum. -/
theorem ends_edge (l : Layout) (rest : List Char) : Ends (l.edge.toList ++ '\x7d' :: rest) := by
  rcases l.edge_cases with h | ⟨n, h⟩
  · rw [h]
    exact .inr ⟨'\x7d', rest, rfl, .inr (.inl rfl)⟩
  · rw [h]
    exact .inr ⟨'\n', _, rfl, .inr (.inr rfl)⟩

/-- A comma and blanks stand between two members. -/
theorem separator_eq (l : Layout) :
    ∃ blanks, l.separator.toList = ',' :: blanks ∧ ∀ b ∈ blanks, isSpace b = true := by
  cases l with
  | none => exact ⟨[' '], rfl, List.forall_mem_singleton.2 rfl⟩
  | some n =>
    refine ⟨(edge (some n)).toList, ?_, edge_blank _⟩
    rw [separator, String.toList_append]
    rfl

end Layout

/-- A datum starts with no blank and no mark of the byte order. -/
theorem Reads.starts {cs : List Char} {d : Data ε} (h : Reads cs d) :
    ∃ c rest, cs = c :: rest ∧ isSpace c = false ∧ c ≠ '\uFEFF' := by
  obtain ⟨c, rest, rfl, hlow, hhigh⟩ := h.opens
  have hne {b : Char} (hb : b.toNat ≤ 0x20 ∨ 0x80 ≤ b.toNat) : c ≠ b := by
    rintro rfl
    omega
  refine ⟨c, rest, rfl, ?_, hne (by decide)⟩
  simp [isSpace, hne (b := ' ') (by decide), hne (b := '\t') (by decide),
    hne (b := '\n') (by decide), hne (b := '\r') (by decide)]

/-- A text that is read as a member of an object: its name as a string, a colon, a space and its
datum. -/
def IsMember (text : String) (entry : Data ε × Data ε) : Prop :=
  ∃ name body, text.toList = (writeString name).toList ++ ':' :: ' ' :: body ∧
    entry.1 = .str name ∧ Reads body entry.2

theorem IsMember.opens {text : String} {entry : Data ε × Data ε} (h : IsMember text entry) :
    ∃ cs, text.toList = '"' :: cs := by
  obtain ⟨name, body, htext, _⟩ := h
  rw [htext, toList_writeString]
  exact ⟨_, rfl⟩

/-- Blanks in front of a member are passed over. -/
theorem IsMember.skip_blanks {text : String} {entry : Data ε × Data ε} (h : IsMember text entry)
    {place : Cursor} {blanks rest : List Char} (hp : place.rest = blanks ++ (text.toList ++ rest))
    (hb : ∀ b ∈ blanks, isSpace b = true) : (skip place).rest = text.toList ++ rest := by
  obtain ⟨cs, hopens⟩ := h.opens
  rw [hopens] at hp ⊢
  exact rest_skip hp hb (by decide)

/-- How the reader goes on at the end of a member: it is the last one, or more follow. -/
def membersBehind (fuel : Nat) (entry : Data ε × Data ε) (close : Cursor) :
    Except Failure (List (Data ε × Data ε) × Cursor) :=
  match close.rest with
  | '\x7d' :: _ => .ok ([entry], close.advance 1)
  | ',' :: _ => do
    let (entries, stop) ← members fuel (skip (close.advance 1))
    return (entry :: entries, stop)
  | _ => .error (complain .comma close)

theorem membersBehind_brace {close : Cursor} {rest : List Char} (h : close.rest = '\x7d' :: rest)
    (fuel : Nat) (entry : Data ε × Data ε) :
    membersBehind fuel entry close = .ok ([entry], close.advance 1) := by
  rw [membersBehind, h]
  rfl

theorem membersBehind_comma {close stop : Cursor} {rest : List Char} {fuel : Nat}
    {entries : List (Data ε × Data ε)} (h : close.rest = ',' :: rest)
    (hs : members fuel (skip (close.advance 1)) = .ok (entries, stop)) (entry : Data ε × Data ε) :
    membersBehind fuel entry close = .ok (entry :: entries, stop) := by
  rw [membersBehind, h]
  simp only [hs]
  rfl

/-- A member is read up to what follows it. -/
theorem IsMember.members_eq {text : String} {entry : Data ε × Data ε} (h : IsMember text entry)
    {place : Cursor} {rest : List Char} {fuel : Nat} (hp : place.rest = text.toList ++ rest)
    (hr : Ends rest) (hf : text.length ≤ fuel) :
    ∃ after : Cursor, after.rest = rest ∧
      members (fuel + 1) place = membersBehind fuel entry (skip after) := by
  obtain ⟨name, body, htext, hname, hbody⟩ := h
  obtain ⟨c, cs, rfl, hc, _⟩ := hbody.starts
  rw [htext, List.append_assoc] at hp
  obtain ⟨behind, hkey, hbehind⟩ := string_written hp
  have hcolon := rest_skip_none hbehind (by decide)
  have hspace : ((skip behind).advance 1).rest = [' '] ++ c :: (cs ++ rest) := by
    rw [Cursor.rest_advance, hcolon]
    rfl
  have hdatum := rest_skip hspace (List.forall_mem_singleton.2 rfl) hc
  have hlength : (c :: cs).length ≤ fuel := by
    rw [← String.length_toList, htext, List.length_append, List.length_cons, List.length_cons] at hf
    omega
  obtain ⟨after, hvalue, hafter⟩ := hbody.value hdatum hr hlength
  refine ⟨after, hafter, ?_⟩
  have hentry : (Data.str (String.ofList name.toList), entry.2) = entry := by
    rw [String.ofList_toList, ← hname]
  rw [toList_writeString, List.cons_append] at hp
  simp only [members, hp, hkey, bind, Except.bind, hcolon, hvalue, hentry]
  rfl

/-- The members behind the first one, each behind a comma and blanks. -/
def followers (blanks : List Char) (texts : List String) : List Char :=
  texts.flatMap fun text => ',' :: (blanks ++ text.toList)

theorem followers_cons (blanks : List Char) (text : String) (texts : List String) :
    followers blanks (text :: texts) =
      ',' :: (blanks ++ (text.toList ++ followers blanks texts)) := by
  rw [followers, List.flatMap_cons, List.cons_append, List.append_assoc]
  rfl

/-- Members one after the other, with a comma and blanks between them, are read up to the closing
brace.  The induction is on the members behind the first. -/
theorem members_joined {l : Layout} {blanks : List Char} (hb : ∀ b ∈ blanks, isSpace b = true)
    {text : String} {texts : List String} {entry : Data ε × Data ε}
    {entries : List (Data ε × Data ε)} (h : IsMember text entry)
    (hs : List.Forall₂ IsMember texts entries) {place : Cursor} {rest : List Char} {fuel : Nat}
    (hp : place.rest = text.toList ++ (followers blanks texts ++ (l.edge.toList ++ '\x7d' :: rest)))
    (hf : text.length + (followers blanks texts).length < fuel) :
    ∃ stop, members fuel place = .ok (entry :: entries, stop) ∧ stop.rest = rest := by
  induction hs generalizing text entry place fuel with
  | nil =>
    obtain ⟨fuel, rfl⟩ := Nat.exists_eq_add_one_of_ne_zero (Nat.ne_zero_of_lt hf)
    have hlength : text.length ≤ fuel := by omega
    obtain ⟨after, hafter, heq⟩ := h.members_eq hp (l.ends_edge rest) hlength
    have hclose := rest_skip hafter l.edge_blank (by decide)
    refine ⟨(skip after).advance 1, ?_, rest_advance_one hclose⟩
    rw [heq, membersBehind_brace hclose]
  | @cons next nextEntry texts entries hnext hs ih =>
    obtain ⟨fuel, rfl⟩ := Nat.exists_eq_add_one_of_ne_zero (Nat.ne_zero_of_lt hf)
    rw [followers_cons, List.cons_append, List.append_assoc, List.append_assoc] at hp
    rw [followers_cons, List.length_cons, List.length_append, List.length_append,
      String.length_toList] at hf
    have hlength : text.length ≤ fuel := by omega
    obtain ⟨after, hafter, heq⟩ := h.members_eq hp (.inr ⟨',', _, rfl, .inl rfl⟩) hlength
    have hclose := rest_skip_none hafter (by decide)
    have hmore := hnext.skip_blanks (rest_advance_one hclose) hb
    have hlengths : next.length + (followers blanks texts).length < fuel := by omega
    obtain ⟨stop, hmembers, hstop⟩ := ih hnext hmore hlengths
    exact ⟨stop, heq.trans (membersBehind_comma hclose hmembers entry), hstop⟩

/-- The text of an object, whose members are laid out one level further in. -/
theorem toList_object (l : Layout) (text : String) (texts : List String) :
    ∃ blanks, (∀ b ∈ blanks, isSpace b = true) ∧
      ("\x7b" ++ l.deeper.edge ++ String.intercalate l.deeper.separator (text :: texts) ++ l.edge ++
        "\x7d").toList =
      '\x7b' :: (l.deeper.edge.toList ++ (text.toList ++
        (followers blanks texts ++ (l.edge.toList ++ ['\x7d'])))) := by
  obtain ⟨blanks, hseparator, hblanks⟩ := l.deeper.separator_eq
  refine ⟨blanks, hblanks, ?_⟩
  simp only [String.toList_append, toList_intercalate, hseparator, List.append_assoc,
    List.cons_append]
  rfl

/-- An object is read off its members. -/
theorem reads_object (l : Layout) {text : String} {texts : List String} {entry : Data ε × Data ε}
    {entries : List (Data ε × Data ε)} (h : IsMember text entry)
    (hs : List.Forall₂ IsMember texts entries) :
    Reads ("\x7b" ++ l.deeper.edge ++ String.intercalate l.deeper.separator (text :: texts) ++
      l.edge ++ "\x7d").toList (.ofEntries (entry :: entries)) := by
  obtain ⟨blanks, hblanks, hobject⟩ := toList_object l text texts
  obtain ⟨cs, hopens⟩ := h.opens
  rw [hobject]
  refine ⟨⟨'\x7b', _, rfl, by decide, by decide⟩, ?_⟩
  intro place rest fuel hp _ hf
  simp only [List.cons_append, List.append_assoc, List.nil_append] at hp
  simp only [List.length_cons, List.length_append, String.length_toList] at hf
  obtain ⟨fuel, rfl⟩ := Nat.exists_eq_add_one_of_ne_zero (n := fuel) (by omega)
  have hinside := h.skip_blanks (rest_advance_one hp) l.deeper.edge_blank
  have hlength : text.length + (followers blanks texts).length < fuel := by omega
  obtain ⟨stop, hmembers, hstop⟩ := members_joined hblanks h hs hinside hlength
  refine ⟨stop, ?_, hstop⟩
  rw [hopens, List.cons_append] at hinside
  simp only [value, hp, hinside, hmembers]
  rfl

theorem reads_empty : Reads "\x7b\x7d".toList (.map [] : Data ε) := by
  refine ⟨⟨'\x7b', _, rfl, by decide, by decide⟩, ?_⟩
  intro place rest fuel hp _ hf
  obtain ⟨fuel, rfl⟩ := Nat.exists_eq_add_one_of_ne_zero (Nat.ne_zero_of_lt hf)
  have hopen : place.rest = '\x7b' :: '\x7d' :: rest := hp
  have hinside := rest_skip_none (rest_advance_one hopen) (by decide)
  refine ⟨(skip (place.advance 1)).advance 1, ?_, rest_advance_one hinside⟩
  simp only [value, hopen, hinside]

theorem reads_string (s : String) : Reads (writeString s).toList (.str s : Data ε) := by
  refine ⟨⟨'"', _, toList_writeString s, by decide, by decide⟩, ?_⟩
  intro place rest fuel hp _ hf
  obtain ⟨stop, hstring, hstop⟩ := string_written hp
  rw [toList_writeString] at hp hf
  obtain ⟨fuel, rfl⟩ := Nat.exists_eq_add_one_of_ne_zero (Nat.ne_zero_of_lt hf)
  refine ⟨stop, ?_, hstop⟩
  rw [List.cons_append] at hp
  simp only [value, hp, hstring, bind, Except.bind, String.ofList_toList]
  rfl

/-- A scalar that is no string is read if its text starts with nothing that opens another datum. -/
theorem reads_scalar {c : Char} {cs : List Char} {d : Data ε}
    (hc : 0x20 < c.toNat ∧ c.toNat < 0x80 ∧ c ≠ '"' ∧ c ≠ '\x7b' ∧ c ≠ '[')
    (h : ∀ {place : Cursor} {rest : List Char}, place.rest = c :: cs ++ rest → Ends rest →
      ∃ stop, scalar place = .ok (d, stop) ∧ stop.rest = rest) : Reads (c :: cs) d := by
  obtain ⟨hlow, hhigh, hquote, hbrace, hbracket⟩ := hc
  refine ⟨⟨c, cs, rfl, hlow, hhigh⟩, ?_⟩
  intro place rest fuel hp hr hf
  obtain ⟨fuel, rfl⟩ := Nat.exists_eq_add_one_of_ne_zero (Nat.ne_zero_of_lt hf)
  obtain ⟨stop, hscalar, hstop⟩ := h hp hr
  refine ⟨stop, ?_, hstop⟩
  rw [List.cons_append] at hp
  simp [value, hp, hquote, hbrace, hbracket, hscalar]

theorem reads_number {n : Int} (h : IsNumber n) :
    Reads (Numeral.ofInt n).toList (.int n : Data ε) := by
  have hdigit {c : Char} (hc : Numeral.isDigit c = true) :
      0x20 < c.toNat ∧ c.toNat < 0x80 ∧ c ≠ '"' ∧ c ≠ '\x7b' ∧ c ≠ '[' := by
    obtain ⟨hlow, hhigh⟩ := Numeral.toNat_of_isDigit hc
    refine ⟨by omega, by omega, ?_, ?_, ?_⟩
    all_goals
      rintro rfl
      exact absurd hc (by decide)
  have hread {place : Cursor} {rest : List Char} (hp : place.rest = Numeral.chars n ++ rest)
      (hr : Ends rest) : ∃ stop, scalar place = .ok ((.int n : Data ε), stop) ∧ stop.rest = rest :=
    scalar_number h hp hr
  rw [Numeral.ofInt, String.toList_ofList]
  obtain ⟨c, cs, hc, hcs | hcs⟩ := chars_cases n
  · rw [hcs] at hread ⊢
    exact reads_scalar (hdigit hc) hread
  · rw [hcs] at hread ⊢
    exact reads_scalar (by decide) hread

/-- What a word stands for is read if no other word is tried before. -/
theorem reads_word {c : Char} {cs : List Char} {d : Data ε}
    (hc : 0x20 < c.toNat ∧ c.toNat < 0x80 ∧ c ≠ '"' ∧ c ≠ '\x7b' ∧ c ≠ '[')
    (h : ∀ rest, words.find? (fun w => w.1.isPrefixOf (c :: cs ++ rest)) = some (c :: cs, d)) :
    Reads (c :: cs) d := by
  refine reads_scalar hc ?_
  intro place rest hp _
  refine ⟨place.advance (c :: cs).length, ?_, ?_⟩
  · rw [scalar, hp, h]
  · rw [Cursor.rest_advance, hp, List.drop_left]

theorem reads_null : Reads "null".toList (.null : Data ε) :=
  reads_word (by decide) fun _ => rfl

theorem reads_bool (b : Bool) :
    Reads (if b then "true" else "false").toList (.bool b : Data ε) := by
  cases b with
  | false => exact reads_word (by decide) fun _ => rfl
  | true => exact reads_word (by decide) fun _ => rfl

end Json

/-! ## Values -/

namespace Data

theorem insert_new {key d : Data ε} {entries : List (Data ε × Data ε)}
    (h : ∀ e ∈ entries, e.1.sameKey key = false) :
    insert key d entries = entries ++ [(key, d)] := by
  induction entries with
  | nil => rfl
  | cons e rest ih =>
    obtain ⟨hhead, hrest⟩ := List.forall_mem_cons.1 h
    rw [insert, hhead, if_neg Bool.false_ne_true, ih hrest, List.cons_append]

/-- Entries of different keys are the entries of their map. -/
theorem ofEntries_distinct {entries : List (Data ε × Data ε)}
    (h : entries.Pairwise fun e f => e.1.sameKey f.1 = false) :
    ofEntries entries = map entries := by
  suffices hfold : ∀ before : List (Data ε × Data ε),
      (before ++ entries).Pairwise (fun e f => e.1.sameKey f.1 = false) →
      entries.foldl (fun m e => insert e.1 e.2 m) before = before ++ entries from
    congrArg map (hfold [] h)
  clear h
  induction entries with
  | nil => simp
  | cons e rest ih =>
    intro before hbefore
    have hnew := (List.pairwise_append.1 hbefore).2.2
    rw [List.foldl_cons, insert_new fun f hf => hnew f hf e List.mem_cons_self]
    rw [List.append_cons] at hbefore
    exact (ih _ hbefore).trans (List.append_cons before e rest).symm

end Data

namespace Value

mutual

/-- A value that a document can hold: without functions, its numbers in range, and the fields of its
objects constants of different names. -/
def Storable : Value ε → Prop
  | number n => IsNumber n
  | boolean _ | string _ | null => True
  | object fields => (fields.map Slot.name).Nodup ∧ StorableFields fields
  | function _ | shared _ _ => False

/-- Fields that are constants with storable values. -/
def StorableFields : List (Slot ε) → Prop
  | [] => True
  | ⟨_, isMutable, value⟩ :: rest => (isMutable = false ∧ Storable value) ∧ StorableFields rest

end

theorem toEntries_eq (fields : List (Slot ε)) :
    toEntries fields = fields.map fun slot => (.str slot.name, slot.value.toData) := by
  induction fields with
  | nil => rfl
  | cons slot rest ih =>
    obtain ⟨name, isMutable, value⟩ := slot
    rw [toEntries, ih, List.map_cons]

/-- Fields of different names become entries of different keys. -/
theorem ofEntries_toEntries {fields : List (Slot ε)} (h : (fields.map Slot.name).Nodup) :
    Data.ofEntries (toEntries fields) = .map (toEntries fields) := by
  apply Data.ofEntries_distinct
  rw [toEntries_eq, List.pairwise_map]
  refine (List.pairwise_map.1 h).imp ?_
  intro s t hst
  exact beq_eq_false_iff_ne.2 hst

mutual

/-- A storable value is written, in every layout, as a text that is read as its datum. -/
theorem Storable.written : {v : Value ε} → v.Storable → (l : Json.Layout) →
    ∃ text, Json.write l v.toData = .ok text ∧ Json.Reads text.toList v.toData
  | number _, h, _ => ⟨_, rfl, Json.reads_number h⟩
  | boolean b, _, _ => ⟨_, rfl, Json.reads_bool b⟩
  | string s, _, _ => ⟨_, rfl, Json.reads_string s⟩
  | null, _, _ => ⟨_, rfl, Json.reads_null⟩
  | object [], _, _ => ⟨_, rfl, Json.reads_empty⟩
  | object (⟨_, _, _⟩ :: _), h, l => by
    obtain ⟨texts, hwrites, hreads⟩ := StorableFields.written h.2 l.deeper
    have hentries := ofEntries_toEntries h.1
    rw [toData]
    rw [toEntries] at hwrites hreads hentries ⊢
    cases hreads with
    | cons hread hreads =>
      rw [← hentries]
      refine ⟨_, ?_, Json.reads_object l hread hreads⟩
      rw [hentries]
      simp only [Json.write, hwrites]
      rfl

/-- The fields of a storable value are written as texts that are read as its entries. -/
theorem StorableFields.written : {fields : List (Slot ε)} → StorableFields fields →
    (l : Json.Layout) → ∃ texts, Json.writeEntries l (toEntries fields) = .ok texts ∧
      List.Forall₂ Json.IsMember texts (toEntries fields)
  | [], _, _ => ⟨[], rfl, .nil⟩
  | ⟨name, _, value⟩ :: rest, h, l => by
    obtain ⟨text, hwrite, hread⟩ := Storable.written h.1.2 l
    obtain ⟨texts, hwrites, hreads⟩ := StorableFields.written h.2 l
    refine ⟨(Json.writeString name ++ ": " ++ text) :: texts, ?_, .cons ?_ hreads⟩
    · simp only [toEntries, Json.writeEntries, Json.writeKey, hwrite, hwrites]
      rfl
    · refine ⟨name, text.toList, ?_, rfl, hread⟩
      simp [String.toList_append]

end

mutual

/-- A storable value is what its datum becomes. -/
theorem Storable.toValue_toData : {v : Value ε} → v.Storable → v.toData.toValue false = .ok v
  | number n, h => by
    have hlength := Numeral.length_digits_natAbs h
    have hwide : Numeral.isWide n = false := by
      rw [Numeral.isWide, Numeral.digitLimit, decide_eq_false_iff_not]
      omega
    rw [toData, Data.toValue, Data.numberOf, hwide, if_neg Bool.false_ne_true,
      if_pos (Literal.inRange_iff.2 h)]
  | boolean _, _ | string _, _ | null, _ => rfl
  | object fields, h => by
    rw [toData, Data.toValue, StorableFields.toFields_toEntries h.2 [] h.1]
    rfl

/-- The fields of a storable object are what its entries become, behind those before them. -/
theorem StorableFields.toFields_toEntries : {fields : List (Slot ε)} → StorableFields fields →
    (before : List (Slot ε)) → ((before ++ fields).map Slot.name).Nodup →
    Data.toFields false (toEntries fields) before = .ok (before ++ fields)
  | [], _, before, _ => by rw [List.append_nil]; rfl
  | ⟨name, _, value⟩ :: rest, h, before, hnames => by
    obtain ⟨⟨rfl, hvalue⟩, hrest⟩ := h
    have hnew : Fields.has name before = false := by
      rw [List.map_append, List.nodup_append] at hnames
      rw [Fields.has, List.any_eq_false]
      intro slot hslot hname
      have hne := hnames.2.2 _ (List.mem_map_of_mem hslot) name List.mem_cons_self
      exact hne (beq_iff_eq.1 hname)
    have hdefine : Fields.define ⟨name, false, value⟩ before =
        .ok (before ++ [⟨name, false, value⟩]) := by
      rw [Fields.define, hnew, if_neg Bool.false_ne_true]
    rw [List.append_cons] at hnames ⊢
    have hfields := StorableFields.toFields_toEntries hrest _ hnames
    simp only [toEntries, Data.toFields, Data.name, Data.text, hvalue.toValue_toData, hdefine,
      hfields, Except.mapError, bind, Except.bind]

end

end Value

namespace Json

/-- A text that is read as a datum up to its end is a document. -/
theorem Reads.read {text : String} {d : Data ε} (h : Reads text.toList d) : read text = .ok d := by
  obtain ⟨c, cs, hcs, hblank, hmark⟩ := h.starts
  have hstart : (skip (Cursor.start text.toList)).rest = text.toList ++ [] := by
    rw [List.append_nil, rest_skip_none hcs hblank, hcs]
  have hlength : text.toList.length ≤ 2 * text.length + 1 := by
    rw [String.length_toList]
    omega
  obtain ⟨stop, hvalue, hstop⟩ := h.value hstart (.inl rfl) hlength
  have hend : (skip stop).rest = [] := by rw [skip, Cursor.rest_advance, hstop, List.drop_nil]
  have hhead : text.toList.head? ≠ some '\uFEFF' := by
    rw [hcs]
    rintro ⟨rfl⟩
    exact hmark rfl
  simp only [Json.read, if_neg hhead, hvalue, bind, Except.bind, hend]
  rfl

/-- The text of a map starts with a brace. -/
theorem write_map {l : Layout} {entries : List (Data ε × Data ε)} {text : String}
    (h : write l (.map entries) = .ok text) : ∃ rest, text.toList = '\x7b' :: rest := by
  cases entries with
  | nil =>
    obtain rfl := Except.ok.inj h
    exact ⟨_, rfl⟩
  | cons e es =>
    rw [write] at h
    obtain ⟨texts, _, htext⟩ := except_bind_eq_ok.1 h
    obtain rfl := Except.ok.inj htext
    simp only [String.toList_append, List.append_assoc]
    exact ⟨_, rfl⟩

end Json

theorem Format.ofText_brace {text : String} {rest : List Char} (h : text.toList = '\x7b' :: rest) :
    ofText text = json := by
  have htrim : Text.trimStart ('\x7b' :: rest) = '\x7b' :: rest := rfl
  rw [ofText, h, htrim]
  rfl

/-- A storable value that is written as JSON is read back as the same value, its fields in the same
order; an object also if the format is to be told from the text. -/
theorem Document.json_round_trip (v : Value ε) (hv : v.Storable) (pretty : Bool) :
    ∃ text, write (some "json") pretty (.value v) = .ok text ∧
      (read (some "json") text).bind (Data.toValue false) = .ok v ∧
      (v.variant = .object → (read none text).bind (Data.toValue false) = .ok v) := by
  obtain ⟨text, hwrite, hread⟩ := hv.written (if pretty then some 0 else none)
  have hback : ((Json.read text).bind (Data.toValue false) : Except Failure (Value ε)) = .ok v := by
    rw [hread.read]
    exact hv.toValue_toData
  refine ⟨text, hwrite, hback, ?_⟩
  intro hobject
  have hformat : Format.ofText text = .json := by
    cases v with
    | object fields =>
      obtain ⟨rest, hrest⟩ := Json.write_map hwrite
      exact Format.ofText_brace hrest
    | shared => exact hv.elim
    | _ => cases hobject
  rw [read, hformat]
  exact hback

/-- An object with names and strings that have to be escaped, the least number and more objects. -/
def Document.intricate : Value Empty :=
  .object [⟨"a \"b\"\n", false, .number (-0x8000000000000000)⟩,
    ⟨"", false, .object [⟨"\\u\x01", false, .string "\x7d, é:"⟩, ⟨"none", false, .null⟩]⟩,
    ⟨"b", false, .object []⟩, ⟨"a", false, .boolean true⟩]

theorem Document.json_round_trip_intricate :
    intricate.Storable ∧ ∃ text, write (some "json") true (.value intricate) = .ok text ∧
      (read (some "json") text).bind (Data.toValue false) = .ok intricate ∧
      (read none text).bind (Data.toValue false) = .ok intricate := by
  have hstorable : intricate.Storable := by
    simp [intricate, Value.Storable, Value.StorableFields, IsNumber]
  obtain ⟨text, hwrite, hread, hnone⟩ := json_round_trip intricate hstorable true
  exact ⟨hstorable, text, hwrite, hread, hnone rfl⟩

end Scriptlet
