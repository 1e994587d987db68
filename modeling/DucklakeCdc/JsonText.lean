import DucklakeCdc.Readers

/-!
Values in lists and dictionaries, JSON without fractions among them, the text of a JSON value
and a reader of that text. The text is printable ASCII: what is not stands in a string as an
escape, beyond the first 65536 characters as two of them. Between values it has the spaces
that the separators have, and no others.
-/
namespace JsonText
open Readers

/-- `κ` are the keys of the dictionaries, `σ` the values that hold no others. -/
inductive Tree (κ σ : Type) where
  | leaf (value : σ)
  | list (items : List (Tree κ σ))
  | dict (entries : List (κ × Tree κ σ))

section
variable {κ σ β : Type}

theorem Tree.induction {motive : Tree κ σ → Prop} (leaf : ∀ value, motive (.leaf value))
    (list : ∀ items, (∀ item ∈ items, motive item) → motive (.list items))
    (dict : ∀ entries, (∀ entry ∈ entries, motive entry.2) → motive (.dict entries))
    (tree : Tree κ σ) : motive tree := by
  refine @Tree.rec κ σ motive (fun items => ∀ item ∈ items, motive item)
    (fun entries => ∀ entry ∈ entries, motive entry.2) (fun entry => motive entry.2)
    leaf list dict ?_ ?_ ?_ ?_ ?_ tree
  · simp
  · intro item items first later
    simpa using ⟨first,later⟩
  · simp
  · intro entry entries first later
    exact List.forall_mem_cons.mpr ⟨first,later⟩
  · exact fun _ _ here => here

variable (leaf : σ → β) (list : List β → β) (dict : List (κ × β) → β)

mutual

def Tree.fold : Tree κ σ → β
  | .leaf value => leaf value
  | .list items => list (foldItems items)
  | .dict entries => dict (foldEntries entries)

def Tree.foldItems : List (Tree κ σ) → List β
  | [] => []
  | item :: items => item.fold :: foldItems items

def Tree.foldEntries : List (κ × Tree κ σ) → List (κ × β)
  | [] => []
  | (key,value) :: entries => (key,value.fold) :: foldEntries entries

end

theorem Tree.fold_list (items : List (Tree κ σ)) :
    (Tree.list items).fold leaf list dict = list (items.map (Tree.fold leaf list dict)) := by
  rw [Tree.fold]
  congr 1
  induction items with
  | nil => rfl
  | cons item items ih => rw [Tree.foldItems, ih, List.map_cons]

theorem Tree.fold_dict (entries : List (κ × Tree κ σ)) :
    (Tree.dict entries).fold leaf list dict =
      dict (entries.map fun entry => (entry.1,entry.2.fold leaf list dict)) := by
  rw [Tree.fold]
  congr 1
  induction entries with
  | nil => rfl
  | cons entry entries ih =>
    obtain ⟨key,value⟩ := entry
    rw [Tree.foldEntries, ih, List.map_cons]

end

inductive Scalar where
  | null
  | bool (value : Bool)
  | int (value : Int)
  | str (value : String)

abbrev Json := Tree String Scalar

def quote : Char := Char.ofNat 34

def backslash : Char := Char.ofNat 92

def shortEscapes : List (Char × Char) :=
  [(quote,quote),(backslash,backslash),(Char.ofNat 8,'b'),(Char.ofNat 12,'f'),('\n','n'),('\r','r'),
    ('\t','t')]

def isPrintable (c : Char) : Bool := 32 ≤ c.toNat ∧ c.toNat ≤ 126

def hex (n : Nat) : List Char :=
  [(n / 4096 % 16).digitChar,(n / 256 % 16).digitChar,(n / 16 % 16).digitChar,(n % 16).digitChar]

def unicodeEscape (unit : Nat) : List Char := backslash :: 'u' :: hex unit

def escapeChar (c : Char) : List Char :=
  match shortEscapes.lookup c with
  | some letter => [backslash,letter]
  | none =>
    if isPrintable c then [c]
    else if c.toNat < 0x10000 then unicodeEscape c.toNat
    else unicodeEscape (0xd800 + (c.toNat - 0x10000) / 1024) ++
      unicodeEscape (0xdc00 + (c.toNat - 0x10000) % 1024)

def renderString (text : String) : List Char :=
  [quote] ++ (text.toList.flatMap escapeChar ++ [quote])

def renderScalar : Scalar → List Char
  | .null => "null".toList
  | .bool value => if value then "true".toList else "false".toList
  | .int value => (toString value).toList
  | .str value => renderString value

def separator : List Char := ", ".toList

def colon : List Char := ": ".toList

def renderMember (member : String × List Char) : List Char :=
  renderString member.1 ++ (colon ++ member.2)

def render : Json → List Char :=
  Tree.fold renderScalar (fun items => ['['] ++ (separator.intercalate items ++ [']']))
    fun members => [Char.ofNat 123] ++
      (separator.intercalate (members.map renderMember) ++ [Char.ofNat 125])

def hexValue (c : Char) : Option Nat := (List.range 16).find? fun d => d.digitChar = c.toLower

def readHex : Reader Char Nat
  | a :: b :: c :: d :: rest => do
    let value := ((← hexValue a) * 4096 + (← hexValue b) * 256 + (← hexValue c) * 16 + (← hexValue d))
    return (value,rest)
  | _ => none

def unitChar (unit : Nat) : Option Char :=
  if unit.isValidChar then some (Char.ofNat unit) else none

def pairChar (high low : Nat) : Option Char :=
  if 0xdc00 ≤ low ∧ low < 0xe000 then
    some (Char.ofNat (0x10000 + (high - 0xd800) * 1024 + (low - 0xdc00)))
  else none

/-- After a backslash and `u`. The first half of a pair demands the second. -/
def readUnicode : Reader Char Char :=
  andThen readHex fun unit =>
    if 0xd800 ≤ unit ∧ unit < 0xdc00 then
      andThen (exactly [backslash,'u']) fun _ => andThen readHex fun low => settled (pairChar unit low)
    else settled (unitChar unit)

def readChar : Reader Char Char
  | [] => none
  | [c] => if c = backslash then none else some (c,[])
  | c :: d :: rest =>
    if c = backslash then
      if d = 'u' then readUnicode rest
      else (shortEscapes.find? fun pair => pair.2 = d).map fun pair => (pair.1,rest)
    else if c.toNat < 32 then none
    else some (c,d :: rest)

def readString : Reader Char String :=
  andThen (exactly [quote]) fun _ => mapped String.ofList (closed quote readChar)

/-- Decimal digits, at least one, with no zero in front of others. -/
def readNat : Reader Char Nat := fun input =>
  let digits := input.takeWhile Char.isDigit
  if digits = [] ∨ digits.head? = some '0' ∧ digits ≠ ['0'] then none
  else mapped (Nat.ofDigitChars 10 · 0) (run Char.isDigit) input

def readInt : Reader Char Int := fun input =>
  if input.head? = some '-' then
    andThen (exactly ['-']) (fun _ => mapped (fun n : Nat => -(n : Int)) readNat) input
  else mapped (fun n : Nat => (n : Int)) readNat input

def readMember (value : Reader Char Json) : Reader Char (String × Json) :=
  andThen readString fun name => andThen (exactly colon) fun _ => mapped (Prod.mk name) value

def readValue : Nat → Reader Char Json
  | 0, _ => none
  | fuel + 1, input =>
    if input.head? = some 'n' then mapped (fun _ => .leaf .null) (exactly "null".toList) input
    else if input.head? = some 't' then
      mapped (fun _ => .leaf (.bool true)) (exactly "true".toList) input
    else if input.head? = some 'f' then
      mapped (fun _ => .leaf (.bool false)) (exactly "false".toList) input
    else if input.head? = some quote then mapped (fun s => .leaf (.str s)) readString input
    else if input.head? = some '[' then
      mapped .list (andThen (exactly ['[']) fun _ => separated separator ']' (readValue fuel)) input
    else if input.head? = some (Char.ofNat 123) then
      mapped .dict (andThen (exactly [Char.ofNat 123]) fun _ =>
        separated separator (Char.ofNat 125) (readMember (readValue fuel))) input
    else mapped (fun n => .leaf (.int n)) readInt input

def read (text : List Char) : Option Json := whole (readValue text.length) text

def Stops (rest : List Char) : Prop := ∀ c, rest.head? = some c → c = ',' ∨ c = ']' ∨ c = Char.ofNat 125

section characters

theorem hexValue_digitChar : ∀ d < 16, hexValue d.digitChar = some d := by decide

theorem reads_hex {n : Nat} (small : n < 65536) : Reads readHex Anything (hex n) n := by
  intro rest _
  have digit : ∀ m, hexValue (m % 16).digitChar = some (m % 16) :=
    fun m => hexValue_digitChar _ (Nat.mod_lt _ (by decide))
  have whole_ : n / 4096 % 16 * 4096 + n / 256 % 16 * 256 + n / 16 % 16 * 16 + n % 16 = n := by omega
  simp only [hex, List.cons_append, List.nil_append, readHex, digit, Option.bind_eq_bind,
    Option.bind_some, whole_]
  rfl

theorem not_surrogate (c : Char) : c.toNat < 0xd800 ∨ 0xdfff < c.toNat ∧ c.toNat < 0x110000 := c.valid

theorem reads_unicode_low {c : Char} (low : c.toNat < 0x10000) :
    Reads readUnicode Anything (hex c.toNat) c := by
  have single : ¬ (0xd800 ≤ c.toNat ∧ c.toNat < 0xdc00) := by
    have := not_surrogate c
    omega
  have valid : c.toNat.isValidChar := c.valid
  have known : unitChar c.toNat = some c := by rw [unitChar, if_pos valid, Char.ofNat_toNat]
  rw [← List.append_nil (hex _)]
  refine reads_andThen (reads_hex low) ?_ fun _ _ => trivial
  rw [if_neg single]
  exact reads_settled known

theorem reads_unicode_high {c : Char} (high : ¬ c.toNat < 0x10000) :
    Reads readUnicode Anything (hex (0xd800 + (c.toNat - 0x10000) / 1024) ++
      unicodeEscape (0xdc00 + (c.toNat - 0x10000) % 1024)) c := by
  have top := not_surrogate c
  have first : 0xd800 ≤ 0xd800 + (c.toNat - 0x10000) / 1024 ∧
      0xd800 + (c.toNat - 0x10000) / 1024 < 0xdc00 := by omega
  have second : 0xdc00 ≤ 0xdc00 + (c.toNat - 0x10000) % 1024 ∧
      0xdc00 + (c.toNat - 0x10000) % 1024 < 0xe000 := by omega
  have joined : 0x10000 + (0xd800 + (c.toNat - 0x10000) / 1024 - 0xd800) * 1024 +
      (0xdc00 + (c.toNat - 0x10000) % 1024 - 0xdc00) = c.toNat := by omega
  have known : pairChar (0xd800 + (c.toNat - 0x10000) / 1024) (0xdc00 + (c.toNat - 0x10000) % 1024) =
      some c := by
    rw [pairChar, if_pos second, joined, Char.ofNat_toNat]
  refine reads_andThen (reads_hex (by omega)) ?_ fun _ _ => trivial
  rw [if_pos first, unicodeEscape, ← List.append_nil (hex _)]
  refine reads_andThen (reads_exactly [backslash,'u']) ?_ fun _ _ => trivial
  exact reads_andThen (reads_hex (by omega)) (reads_settled known) fun _ _ => trivial

theorem shortEscapes_read : ∀ pair ∈ shortEscapes, pair.2 ≠ 'u' ∧
    shortEscapes.find? (fun other => other.2 = pair.2) = some pair := by decide

theorem mem_of_lookup {c d : Char} (known : shortEscapes.lookup c = some d) :
    (c,d) ∈ shortEscapes := by
  obtain ⟨before,after,split,_⟩ := List.lookup_eq_some_iff.mp known
  rw [split]
  simp

theorem not_lookup {c d : Char} (unknown : shortEscapes.lookup c = none)
    (short : (shortEscapes.lookup d).isSome) : c ≠ d := by
  intro same
  rw [← same, unknown] at short
  cases short

theorem reads_char (c : Char) : Reads readChar Anything (escapeChar c) c := by
  intro rest _
  rw [escapeChar]
  cases known : shortEscapes.lookup c with
  | some letter =>
    obtain ⟨other,found⟩ := shortEscapes_read _ (mem_of_lookup known)
    change readChar (backslash :: letter :: rest) = _
    rw [readChar, if_pos rfl, if_neg other, found]
    rfl
  | none =>
    dsimp only
    by_cases printable : isPrintable c = true
    · have plain : c ≠ backslash := not_lookup known (by decide)
      have high : ¬ c.toNat < 32 := Nat.not_lt.mpr (of_decide_eq_true printable).1
      rw [if_pos printable, List.singleton_append]
      cases rest with
      | nil => rw [readChar, if_neg plain]
      | cons d rest => rw [readChar, if_neg plain, if_neg high]
    · rw [if_neg printable]
      by_cases low : c.toNat < 0x10000
      · rw [if_pos low]
        change readChar (backslash :: 'u' :: (hex c.toNat ++ rest)) = _
        rw [readChar, if_pos rfl, if_pos rfl]
        exact reads_unicode_low low rest trivial
      · rw [if_neg low]
        have read := reads_unicode_high low rest trivial
        change readChar (backslash :: 'u' :: (_ ++ rest)) = _
        rw [readChar, if_pos rfl, if_pos rfl]
        exact read

theorem escapeChar_opens (c : Char) (rest : List Char) : (escapeChar c ++ rest).head? ≠ some quote := by
  have escaped : ∀ more, (backslash :: more).head? ≠ some quote :=
    fun _ same => absurd (Option.some.inj same) (by decide)
  rw [escapeChar]
  cases known : shortEscapes.lookup c with
  | some letter => exact escaped _
  | none =>
    dsimp only
    split
    · have other : c ≠ quote := not_lookup known (by decide)
      simpa using other
    · split
      · exact escaped _
      · exact escaped _

theorem printable_hex (n : Nat) : ∀ c ∈ hex n, isPrintable c = true := by
  have digits : ∀ d < 16, isPrintable d.digitChar = true := by decide
  have digit : ∀ m, isPrintable (m % 16).digitChar = true :=
    fun m => digits _ (Nat.mod_lt _ (by decide))
  simp [hex, digit]

theorem printable_unicodeEscape (n : Nat) : ∀ c ∈ unicodeEscape n, isPrintable c = true :=
  List.forall_mem_cons.mpr ⟨by decide,List.forall_mem_cons.mpr ⟨by decide,printable_hex n⟩⟩

theorem printable_escapeChar (c : Char) : ∀ d ∈ escapeChar c, isPrintable d = true := by
  have letters : ∀ pair ∈ shortEscapes, isPrintable pair.2 = true := by decide
  rw [escapeChar]
  cases known : shortEscapes.lookup c with
  | some letter =>
    have letter_ := letters _ (mem_of_lookup known)
    exact List.forall_mem_cons.mpr ⟨by decide,by simpa using letter_⟩
  | none =>
    dsimp only
    split
    · simpa using ‹_›
    · split
      · exact printable_unicodeEscape _
      · exact List.forall_mem_append.mpr ⟨printable_unicodeEscape _,printable_unicodeEscape _⟩

theorem reads_string (text : String) : Reads readString Anything (renderString text) text := by
  have chars := reads_closed (fun c (_ : c ∈ text.toList) => reads_char c)
    fun c _ => escapeChar_opens c
  have read : Reads readString Anything (renderString text) (String.ofList text.toList) :=
    reads_andThen (reads_exactly [quote]) (reads_mapped String.ofList chars) fun _ _ => trivial
  rwa [String.ofList_toList] at read

theorem printable_between {before text after : List Char}
    (marks : before.all isPrintable = true ∧ after.all isPrintable = true)
    (inside : ∀ c ∈ text, isPrintable c = true) :
    ∀ c ∈ before ++ (text ++ after), isPrintable c = true := by
  obtain ⟨first,last⟩ := marks
  exact List.forall_mem_append.mpr ⟨List.all_eq_true.mp first,
    List.forall_mem_append.mpr ⟨inside,List.all_eq_true.mp last⟩⟩

theorem printable_renderString (text : String) : ∀ c ∈ renderString text, isPrintable c = true := by
  have inside : ∀ c ∈ text.toList.flatMap escapeChar, isPrintable c = true := by
    intro c member
    obtain ⟨d,_,here⟩ := List.mem_flatMap.mp member
    exact printable_escapeChar d c here
  exact printable_between (by decide) inside

end characters

section numbers

theorem reads_nat (n : Nat) : Reads readNat (NotNext Char.isDigit) (Nat.toDigits 10 n) n := by
  intro rest may
  have digits : (Nat.toDigits 10 n ++ rest).takeWhile Char.isDigit = Nat.toDigits 10 n := by
    have taken := reads_run (digits_of_toDigits n) rest may
    exact congrArg Prod.fst (Option.some.inj taken)
  have plain : ¬ (Nat.toDigits 10 n = [] ∨
      (Nat.toDigits 10 n).head? = some '0' ∧ Nat.toDigits 10 n ≠ ['0']) := by
    rintro (none_ | ⟨zero,more⟩)
    · exact Nat.toDigits_ne_nil none_
    · by_cases none_ : n = 0
      · subst n
        exact more (Nat.toDigits_zero 10)
      · exact toDigits_no_zero none_ zero
  rw [readNat, digits, if_neg plain, reads_toDigits n rest may]

theorem reads_int (n : Int) : Reads readInt (NotNext Char.isDigit) (toString n).toList n := by
  intro rest may
  rw [toList_int]
  by_cases negative : n < 0
  · have read : Reads (andThen (exactly ['-']) fun _ => mapped (fun n : Nat => -(n : Int)) readNat)
        (NotNext Char.isDigit) (['-'] ++ Nat.toDigits 10 n.natAbs) (-(n.natAbs : Int)) :=
      reads_andThen (reads_exactly ['-']) (reads_mapped _ (reads_nat n.natAbs)) fun _ _ => trivial
    have whole_ : -(n.natAbs : Int) = n := by omega
    rw [whole_] at read
    rw [if_pos negative]
    exact read rest may
  · have read := reads_mapped (fun n : Nat => (n : Int)) (reads_nat n.natAbs)
    have whole_ : (n.natAbs : Int) = n := by omega
    rw [whole_] at read
    obtain ⟨c,more,same,digit⟩ := toDigits_head n.natAbs
    have unsigned : (Nat.toDigits 10 n.natAbs ++ rest).head? ≠ some '-' := by
      rw [same]
      simpa using digit_ne digit (by decide)
    rw [if_neg negative, readInt, if_neg unsigned]
    exact read rest may

theorem toList_int_head (n : Int) : ∃ c more, (toString n).toList = c :: more ∧
    ∀ d, d.isDigit = false → d ≠ '-' → c ≠ d := by
  rw [toList_int]
  split
  · exact ⟨_,_,rfl,fun _ _ other => other.symm⟩
  · obtain ⟨c,more,same,digit⟩ := toDigits_head n.natAbs
    exact ⟨c,more,same,fun _ no _ => digit_ne digit no⟩

theorem printable_int (n : Int) : ∀ c ∈ (toString n).toList, isPrintable c = true := by
  have digits : ∀ c ∈ Nat.toDigits 10 n.natAbs, isPrintable c = true := by
    intro c member
    have digit := digits_of_toDigits n.natAbs c member
    simp only [Char.isDigit, ge_iff_le, Bool.and_eq_true, decide_eq_true_eq,
      UInt32.le_iff_toNat_le] at digit
    have low : 48 ≤ c.toNat := digit.1
    have high : c.toNat ≤ 57 := digit.2
    exact decide_eq_true ⟨by omega,by omega⟩
  rw [toList_int]
  split
  · exact List.forall_mem_cons.mpr ⟨by decide,digits⟩
  · exact digits

end numbers

section values

theorem render_list (items : List Json) :
    render (.list items) = ['['] ++ (separator.intercalate (items.map render) ++ [']']) :=
  Tree.fold_list _ _ _ items

theorem render_dict (members : List (String × Json)) :
    render (.dict members) = [Char.ofNat 123] ++ (separator.intercalate
      (members.map fun member => renderMember (member.1,render member.2)) ++ [Char.ofNat 125]) := by
  rw [render, Tree.fold_dict, List.map_map]
  rfl

theorem separates_items : Separates separator ']' Stops where
  begins := by decide
  other := by decide
  between _ _ same := Or.inl (Option.some.inj same).symm
  closing _ _ same := Or.inr (Or.inl (Option.some.inj same).symm)

theorem separates_members : Separates separator (Char.ofNat 125) Stops where
  begins := by decide
  other := by decide
  between _ _ same := Or.inl (Option.some.inj same).symm
  closing _ _ same := Or.inr (Or.inr (Option.some.inj same).symm)

theorem stops_no_digit {rest : List Char} (h : Stops rest) : NotNext Char.isDigit rest := by
  intro c head
  rcases h c head with rfl | rfl | rfl <;> decide

theorem render_head (value : Json) : ∃ c more, render value = c :: more ∧ c ≠ ']' := by
  cases value with
  | leaf value =>
    cases value with
    | null => exact ⟨_,_,rfl,by decide⟩
    | bool value => cases value <;> exact ⟨_,_,rfl,by decide⟩
    | int n =>
      obtain ⟨c,more,same,other⟩ := toList_int_head n
      exact ⟨c,more,same,other ']' (by decide) (by decide)⟩
    | str text => exact ⟨_,_,rfl,by decide⟩
  | list items => exact ⟨_,_,render_list items,by decide⟩
  | dict members => exact ⟨_,_,render_dict members,by decide⟩

theorem length_item {item : Json} {items : List Json} (member : item ∈ items) :
    (render item).length < (render (.list items)).length := by
  have inside : (render item).length ≤ (separator.intercalate (items.map render)).length :=
    length_le_of_mem (List.mem_map.mpr ⟨item,member,rfl⟩)
  rw [render_list]
  simp only [List.length_append, List.length_singleton]
  omega

theorem length_member {entry : String × Json} {members : List (String × Json)}
    (member : entry ∈ members) : (render entry.2).length < (render (.dict members)).length := by
  have inside : (renderMember (entry.1,render entry.2)).length ≤ (separator.intercalate
      (members.map fun member => renderMember (member.1,render member.2))).length :=
    length_le_of_mem (List.mem_map.mpr ⟨entry,member,rfl⟩)
  rw [renderMember] at inside
  rw [render_dict]
  simp only [List.length_append, List.length_singleton] at inside ⊢
  omega

theorem reads_member {value : Reader Char Json} {entry : String × Json}
    (read : Reads value Stops (render entry.2) entry.2) :
    Reads (readMember value) Stops (renderMember (entry.1,render entry.2)) entry := by
  refine reads_andThen (reads_string entry.1) ?_ fun _ _ => trivial
  exact reads_andThen (reads_exactly colon) (reads_mapped (Prod.mk entry.1) read) fun _ _ => trivial

theorem reads_int_value (n : Int) (fuel : Nat) :
    Reads (readValue (fuel + 1)) Stops (toString n).toList (.leaf (.int n)) := by
  intro rest may
  obtain ⟨c,more,same,unlike⟩ := toList_int_head n
  have other : ∀ d : Char, d.isDigit = false → d ≠ '-' →
      ((toString n).toList ++ rest).head? ≠ some d := by
    intro d no sign
    rw [same]
    simpa using unlike d no sign
  have read := reads_mapped (fun n => (.leaf (.int n) : Json)) (reads_int n) rest (stops_no_digit may)
  rw [readValue, if_neg (other 'n' (by decide) (by decide)), if_neg (other 't' (by decide) (by decide)),
    if_neg (other 'f' (by decide) (by decide)), if_neg (other quote (by decide) (by decide)),
    if_neg (other '[' (by decide) (by decide)),
    if_neg (other (Char.ofNat 123) (by decide) (by decide))]
  exact read

theorem reads_value (fuel : Nat) (value : Json) (enough : (render value).length ≤ fuel) :
    Reads (readValue fuel) Stops (render value) value := by
  induction fuel generalizing value with
  | zero =>
    obtain ⟨c,more,same,_⟩ := render_head value
    simp [same] at enough
  | succ fuel ih =>
    cases value with
    | leaf value =>
      cases value with
      | null => exact fun rest _ => rfl
      | bool value => cases value <;> exact fun rest _ => rfl
      | int n => exact reads_int_value n fuel
      | str text =>
        have read := reads_mapped (fun s => (.leaf (.str s) : Json)) (reads_string text)
        exact fun rest _ => read rest trivial
    | list items =>
      have each : ∀ item ∈ items, Reads (readValue fuel) Stops (render item) item := by
        intro item member
        have shorter := length_item member
        exact ih item (by omega)
      have begins : ∀ item ∈ items, ∀ rest, (render item ++ rest).head? ≠ some ']' := by
        intro item _ rest
        obtain ⟨c,more,same,other⟩ := render_head item
        rw [same]
        simpa using other
      have listed : Reads (andThen (exactly ['[']) fun _ => separated separator ']' (readValue fuel))
          Anything (['['] ++ (separator.intercalate (items.map render) ++ [']'])) items :=
        reads_andThen (reads_exactly ['[']) (reads_separated separates_items each begins)
          fun _ _ => trivial
      rw [render_list]
      exact fun rest _ => reads_mapped Tree.list listed rest trivial
    | dict members =>
      have each : ∀ entry ∈ members, Reads (readMember (readValue fuel)) Stops
          (renderMember (entry.1,render entry.2)) entry := by
        intro entry member
        have shorter := length_member member
        exact reads_member (ih entry.2 (by omega))
      have begins : ∀ entry ∈ members, ∀ rest,
          (renderMember (entry.1,render entry.2) ++ rest).head? ≠ some (Char.ofNat 125) :=
        fun _ _ _ same => absurd (Option.some.inj same) (by decide)
      have listed : Reads (andThen (exactly [Char.ofNat 123]) fun _ =>
          separated separator (Char.ofNat 125) (readMember (readValue fuel))) Anything
          (render (.dict members)) members := by
        rw [render_dict]
        exact reads_andThen (reads_exactly [Char.ofNat 123])
          (reads_separated separates_members each begins) fun _ _ => trivial
      have read := reads_mapped Tree.dict listed
      rw [render_dict] at read ⊢
      exact fun rest _ => read rest trivial

theorem read_render (value : Json) : read (render value) = some value := by
  have nothing : Stops [] := fun _ no => by cases no
  exact whole_of_reads (reads_value _ value (Nat.le_refl _)) nothing

example : render (.list [.leaf (.int (-30)),.leaf (.str "\"é\n😀"),.leaf .null]) =
    "[-30, \"\\\"\\u00e9\\n\\ud83d\\ude00\", null]".toList := by decide

theorem printable_intercalate {texts : List (List Char)}
    (each : ∀ text ∈ texts, ∀ c ∈ text, isPrintable c = true) :
    ∀ c ∈ separator.intercalate texts, isPrintable c = true := by
  have marks : ∀ c ∈ separator, isPrintable c = true := List.all_eq_true.mp (by decide)
  induction texts with
  | nil => simp
  | cons first texts ih =>
    obtain ⟨here,later⟩ := List.forall_mem_cons.mp each
    cases texts with
    | nil => simpa using here
    | cons second texts =>
      rw [List.intercalate_cons_cons]
      exact List.forall_mem_append.mpr ⟨List.forall_mem_append.mpr ⟨here,marks⟩,ih later⟩

theorem printable_render (value : Json) : ∀ c ∈ render value, isPrintable c = true := by
  induction value using Tree.induction with
  | leaf value =>
    cases value with
    | null => exact List.all_eq_true.mp (by decide)
    | bool value => cases value <;> exact List.all_eq_true.mp (by decide)
    | int n => exact printable_int n
    | str text => exact printable_renderString text
  | list items ih =>
    have inside : ∀ c ∈ separator.intercalate (items.map render), isPrintable c = true :=
      printable_intercalate (List.forall_mem_map.mpr ih)
    rw [render_list]
    exact printable_between (by decide) inside
  | dict members ih =>
    have inside : ∀ c ∈ separator.intercalate
        (members.map fun member => renderMember (member.1,render member.2)), isPrintable c = true := by
      refine printable_intercalate (List.forall_mem_map.mpr ?_)
      intro member known
      exact List.forall_mem_append.mpr ⟨printable_renderString member.1,
        List.forall_mem_append.mpr ⟨List.all_eq_true.mp (by decide),ih member known⟩⟩
    rw [render_dict]
    exact printable_between (by decide) inside

end values
end JsonText
