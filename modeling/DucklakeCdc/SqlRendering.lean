import DucklakeCdc.Readers

/-!
Rendering of table-function calls (`client/sql.py`) and a reader that undoes it. Text is
a list of characters; every value stands in the SQL so that what comes after it, and
nothing in it, ends it.
-/
namespace CdcSql
open Readers

/-- The values of a call: `None`, `bool`, `int`, `str` and lists of them. -/
inductive SqlValue where
  | none
  | bool (value : Bool)
  | int (value : Int)
  | text (value : List Char)
  | list (items : List SqlValue)

def singleQuote : Char := Char.ofNat 39

def doubleQuote : Char := Char.ofNat 34

def separator : List Char := ", ".toList

def renderInt (n : Int) : List Char :=
  if n < 0 then '-' :: Nat.toDigits 10 n.natAbs else Nat.toDigits 10 n.natAbs

def quoteLiteral (value : List Char) : List Char := quoted singleQuote value

def quoteIdentifier (value : List Char) : List Char := quoted doubleQuote value

mutual

def renderValue : SqlValue → List Char
  | .none => "NULL".toList
  | .bool value => if value then "true".toList else "false".toList
  | .int value => renderInt value
  | .text value => quoteLiteral value
  | .list items => ['['] ++ (separator.intercalate (renderItems items) ++ [']'])

def renderItems : List SqlValue → List (List Char)
  | [] => []
  | item :: items => renderValue item :: renderItems items

end

def SqlValue.isNone : SqlValue → Bool
  | .none => true
  | _ => false

inductive Arg where
  | positional (value : SqlValue)
  | named (name : List Char) (value : SqlValue)

def renderArg : Arg → List Char
  | .positional value => renderValue value
  | .named name value => quoteIdentifier name ++ (" := ".toList ++ renderValue value)

def given (named : List (List Char × SqlValue)) : List (List Char × SqlValue) :=
  named.filter fun arg => !arg.2.isNone

def callArgs (args : List SqlValue) (named : List (List Char × SqlValue)) : List Arg :=
  args.map .positional ++ (given named).map fun arg => .named arg.1 arg.2

def tableFunctionSql (functionName : List Char) (args : List SqlValue)
    (named : List (List Char × SqlValue)) : List Char :=
  "SELECT * FROM ".toList ++ (functionName ++ (['('] ++
    (separator.intercalate ((callArgs args named).map renderArg) ++ [')'])))

def readDigits : Reader Char Nat := fun input =>
  if (input.takeWhile Char.isDigit).isEmpty then none
  else mapped (Nat.ofDigitChars 10 · 0) (run Char.isDigit) input

def readNegative : Reader Char SqlValue :=
  andThen (exactly ['-']) fun _ => mapped (fun n : Nat => .int (-n)) readDigits

def readValue : Nat → Reader Char SqlValue
  | 0, _ => none
  | fuel + 1, input =>
    if input.head? = some 'N' then mapped (fun _ => .none) (exactly "NULL".toList) input
    else if input.head? = some 't' then mapped (fun _ => .bool true) (exactly "true".toList) input
    else if input.head? = some 'f' then
      mapped (fun _ => .bool false) (exactly "false".toList) input
    else if input.head? = some singleQuote then mapped .text (readQuoted singleQuote) input
    else if input.head? = some '[' then
      mapped .list (andThen (exactly ['[']) fun _ => separated separator ']' (readValue fuel)) input
    else if input.head? = some '-' then readNegative input
    else mapped (fun n : Nat => .int n) readDigits input

def readArg (fuel : Nat) : Reader Char Arg := fun input =>
  if input.head? = some doubleQuote then
    andThen (readQuoted doubleQuote) (fun name => andThen (exactly " := ".toList) fun _ =>
      mapped (Arg.named name) (readValue fuel)) input
  else mapped Arg.positional (readValue fuel) input

structure FunctionCall where
  functionName : List Char
  args : List SqlValue
  named : List (List Char × SqlValue)

def Arg.value? : Arg → Option SqlValue
  | .positional value => some value
  | .named _ _ => none

def Arg.named? : Arg → Option (List Char × SqlValue)
  | .positional _ => none
  | .named name value => some (name,value)

/-- A function name goes up to the parenthesis. -/
def isNameChar (c : Char) : Bool := c != '('

def readCall (fuel : Nat) : Reader Char FunctionCall :=
  andThen (exactly "SELECT * FROM ".toList) fun _ =>
  andThen (run isNameChar) fun functionName =>
  andThen (exactly ['(']) fun _ =>
  mapped (fun args => ⟨functionName,args.filterMap Arg.value?,args.filterMap Arg.named?⟩)
    (separated separator ')' (readArg fuel))

def readFunctionCall (sql : List Char) : Option FunctionCall := whole (readCall sql.length) sql

def Ends (rest : List Char) : Prop :=
  ∃ c, rest.head? = some c ∧ (c = ',' ∨ c = ']' ∨ c = ')')

theorem separates_list : Separates separator ']' Ends where
  begins := by decide
  other := by decide
  between rest := ⟨',',rfl,Or.inl rfl⟩
  closing rest := ⟨']',rfl,Or.inr (Or.inl rfl)⟩

theorem separates_args : Separates separator ')' Ends where
  begins := by decide
  other := by decide
  between rest := ⟨',',rfl,Or.inl rfl⟩
  closing rest := ⟨')',rfl,Or.inr (Or.inr rfl)⟩

theorem ends_no_digit {rest : List Char} (h : Ends rest) : NotNext Char.isDigit rest := by
  obtain ⟨c,head,which⟩ := h
  intro d same
  obtain rfl := Option.some.inj (head.symm.trans same)
  rcases which with rfl | rfl | rfl <;> decide

theorem ends_no_quote {rest : List Char} (h : Ends rest) : rest.head? ≠ some singleQuote := by
  obtain ⟨c,head,which⟩ := h
  rw [head]
  rcases which with rfl | rfl | rfl <;> decide

theorem renderItems_map (items : List SqlValue) : renderItems items = items.map renderValue := by
  induction items with
  | nil => rfl
  | cons item items ih => rw [renderItems, List.map_cons, ih]

theorem reads_digits (n : Nat) : Reads readDigits Ends (Nat.toDigits 10 n) n := by
  intro rest may
  have some_ : ((Nat.toDigits 10 n ++ rest).takeWhile Char.isDigit).isEmpty = false := by
    rw [List.takeWhile_append_of_pos (digits_of_toDigits n)]
    simp [Nat.toDigits_ne_nil]
  rw [readDigits, some_, if_neg (by simp), reads_toDigits n rest (ends_no_digit may)]

theorem renderValue_head (value : SqlValue) :
    ∃ c more, renderValue value = c :: more ∧ c ≠ ']' ∧ c ≠ ')' ∧ c ≠ doubleQuote := by
  cases value with
  | none => exact ⟨_,_,rfl,by decide,by decide,by decide⟩
  | bool value => cases value <;> exact ⟨_,_,rfl,by decide,by decide,by decide⟩
  | int n =>
    rw [renderValue, renderInt]
    split
    · exact ⟨_,_,rfl,by decide,by decide,by decide⟩
    · obtain ⟨c,more,same,digit⟩ := toDigits_head n.natAbs
      exact ⟨c,more,same,digit_ne digit (by decide),digit_ne digit (by decide),
        digit_ne digit (by decide)⟩
  | text value => exact ⟨_,_,rfl,by decide,by decide,by decide⟩
  | list items => exact ⟨_,_,rfl,by decide,by decide,by decide⟩

theorem renderValue_opens (value : SqlValue) (rest : List Char) :
    (renderValue value ++ rest).head? ≠ some ']' ∧ (renderValue value ++ rest).head? ≠ some ')' ∧
      (renderValue value ++ rest).head? ≠ some doubleQuote := by
  obtain ⟨c,more,same,list,args,name⟩ := renderValue_head value
  rw [same]
  simp [list, args, name]

theorem reads_int (n : Int) (fuel : Nat) :
    Reads (readValue (fuel + 1)) Ends (renderInt n) (.int n) := by
  intro rest may
  by_cases negative : n < 0
  · have read : Reads readNegative Ends (['-'] ++ Nat.toDigits 10 n.natAbs) (.int (-n.natAbs)) :=
      reads_andThen (reads_exactly ['-']) (reads_mapped _ (reads_digits n.natAbs))
        fun _ _ => trivial
    have whole_ : -(n.natAbs : Int) = n := by omega
    rw [whole_] at read
    rw [renderInt, if_pos negative]
    exact read rest may
  · have read : Reads (mapped (fun n : Nat => SqlValue.int n) readDigits) Ends
        (Nat.toDigits 10 n.natAbs) (.int n.natAbs) := reads_mapped _ (reads_digits n.natAbs)
    have whole_ : (n.natAbs : Int) = n := by omega
    rw [whole_] at read
    obtain ⟨c,more,same,digit⟩ := toDigits_head n.natAbs
    have other : ∀ d : Char, d.isDigit = false → (Nat.toDigits 10 n.natAbs ++ rest).head? ≠ some d := by
      intro d no
      rw [same]
      simpa using digit_ne digit no
    rw [renderInt, if_neg negative, readValue, if_neg (other 'N' (by decide)),
      if_neg (other 't' (by decide)), if_neg (other 'f' (by decide)),
      if_neg (other singleQuote (by decide)), if_neg (other '[' (by decide)),
      if_neg (other '-' (by decide))]
    exact read rest may

theorem length_item {item : SqlValue} {items : List SqlValue} (member : item ∈ items) :
    (renderValue item).length < (renderValue (.list items)).length := by
  have inside : (renderValue item).length ≤
      (separator.intercalate (items.map renderValue)).length :=
    length_le_of_mem (List.mem_map.mpr ⟨item,member,rfl⟩)
  rw [renderValue, renderItems_map]
  simp only [List.length_append, List.length_singleton]
  omega

theorem reads_value (fuel : Nat) (value : SqlValue) (enough : (renderValue value).length ≤ fuel) :
    Reads (readValue fuel) Ends (renderValue value) value := by
  induction fuel generalizing value with
  | zero =>
    obtain ⟨c,more,same,_⟩ := renderValue_head value
    simp [same] at enough
  | succ fuel ih =>
    cases value with
    | none => exact fun rest _ => rfl
    | bool value => cases value <;> exact fun rest _ => rfl
    | int n => exact reads_int n fuel
    | text value =>
      have read := reads_mapped SqlValue.text (reads_quoted (q := singleQuote) value)
      exact fun rest may => read rest (ends_no_quote may)
    | list items =>
      have each : ∀ item ∈ items, Reads (readValue fuel) Ends (renderValue item) item := by
        intro item member
        have shorter := length_item member
        exact ih item (by omega)
      have closes : ∀ item ∈ items, ∀ rest, (renderValue item ++ rest).head? ≠ some ']' :=
        fun item _ rest => (renderValue_opens item rest).1
      have listed : Reads (andThen (exactly ['[']) fun _ => separated separator ']' (readValue fuel))
          Anything (['['] ++ (separator.intercalate (items.map renderValue) ++ [']'])) items :=
        reads_andThen (reads_exactly ['[']) (reads_separated separates_list each closes)
          fun _ _ => trivial
      intro rest may
      rw [renderValue, renderItems_map]
      exact reads_mapped SqlValue.list listed rest trivial

theorem reads_arg (fuel : Nat) (arg : Arg) (enough : (renderArg arg).length ≤ fuel) :
    Reads (readArg fuel) Ends (renderArg arg) arg := by
  cases arg with
  | positional value =>
    intro rest may
    rw [readArg, renderArg, if_neg (renderValue_opens value rest).2.2]
    exact reads_mapped Arg.positional (reads_value fuel value enough) rest may
  | named name value =>
    have short : (renderValue value).length ≤ fuel := by
      simp only [renderArg, List.length_append] at enough
      omega
    have spaced : ∀ more, (" := ".toList ++ renderValue value ++ more).head? ≠ some doubleQuote := by
      intro more same
      exact absurd (Option.some.inj same) (by decide : ' ' ≠ doubleQuote)
    have valued : Reads (andThen (exactly " := ".toList) fun _ =>
        mapped (Arg.named name) (readValue fuel)) Ends
        (" := ".toList ++ renderValue value) (.named name value) :=
      reads_andThen (reads_exactly _) (reads_mapped _ (reads_value fuel value short))
        fun _ _ => trivial
    have read : Reads (andThen (readQuoted doubleQuote) fun name =>
        andThen (exactly " := ".toList) fun _ => mapped (Arg.named name) (readValue fuel)) Ends
        (renderArg (.named name value)) (.named name value) :=
      reads_andThen (reads_quoted name) valued fun _ _ => spaced _
    exact read

theorem renderArg_opens (arg : Arg) (rest : List Char) : (renderArg arg ++ rest).head? ≠ some ')' := by
  cases arg with
  | positional value => exact (renderValue_opens value rest).2.1
  | named name value => simp [renderArg, quoteIdentifier, quoted, doubleQuote]

theorem args_values (args : List SqlValue) (named : List (List Char × SqlValue)) :
    (callArgs args named).filterMap Arg.value? = args := by
  simp [callArgs, List.filterMap_append, List.filterMap_map, Function.comp_def, Arg.value?]

theorem args_named (args : List SqlValue) (named : List (List Char × SqlValue)) :
    (callArgs args named).filterMap Arg.named? = given named := by
  simp [callArgs, List.filterMap_append, List.filterMap_map, Function.comp_def, Arg.named?]

theorem length_arg {functionName : List Char} {args : List SqlValue}
    {named : List (List Char × SqlValue)} {arg : Arg} (member : arg ∈ callArgs args named) :
    (renderArg arg).length ≤ (tableFunctionSql functionName args named).length := by
  have inside : (renderArg arg).length ≤
      (separator.intercalate ((callArgs args named).map renderArg)).length :=
    length_le_of_mem (List.mem_map.mpr ⟨arg,member,rfl⟩)
  unfold tableFunctionSql
  rw [List.length_append, List.length_append, List.length_append, List.length_append]
  omega

theorem reads_call (functionName : List Char) (name : '(' ∉ functionName) (args : List SqlValue)
    (named : List (List Char × SqlValue)) (fuel : Nat)
    (enough : (tableFunctionSql functionName args named).length ≤ fuel) :
    Reads (readCall fuel) Anything (tableFunctionSql functionName args named)
      ⟨functionName,args,given named⟩ := by
  have each : ∀ arg ∈ callArgs args named, Reads (readArg fuel) Ends (renderArg arg) arg :=
    fun arg member => reads_arg fuel arg (Nat.le_trans (length_arg member) enough)
  have items := reads_separated separates_args each fun arg _ => renderArg_opens arg
  have listed := reads_mapped (fun args => FunctionCall.mk functionName
    (args.filterMap Arg.value?) (args.filterMap Arg.named?)) items
  rw [args_values, args_named] at listed
  have chars : ∀ c ∈ functionName, isNameChar c = true := by
    intro c member
    have other : c ≠ '(' := fun same => name (same ▸ member)
    simpa [isNameChar] using other
  refine reads_andThen (reads_exactly _) ?_ fun _ _ => trivial
  refine reads_andThen (reads_run chars) ?_ ?_
  · exact reads_andThen (reads_exactly ['(']) listed fun _ _ => trivial
  · intro rest _ c same
    obtain rfl := Option.some.inj same
    decide

/-- Reading the SQL of a call gives back the call: the function, the positional arguments
    in order and the named ones that are not `None`. So calls that differ in more than
    those have different SQL. -/
theorem rendering_faithful (functionName : List Char) (name : '(' ∉ functionName)
    (args : List SqlValue) (named : List (List Char × SqlValue)) :
    readFunctionCall (tableFunctionSql functionName args named) =
        some ⟨functionName,args,given named⟩ ∧
      ∀ functionName' args' named', '(' ∉ functionName' →
        tableFunctionSql functionName args named = tableFunctionSql functionName' args' named' →
        functionName = functionName' ∧ args = args' ∧ given named = given named' := by
  have read : ∀ f args named, '(' ∉ f → readFunctionCall (tableFunctionSql f args named) =
      some ⟨f,args,given named⟩ :=
    fun f args named name => whole_of_reads (reads_call f name args named _ (Nat.le_refl _)) trivial
  refine ⟨read functionName args named name,?_⟩
  intro functionName' args' named' name' same
  have both := read functionName args named name
  rw [same, read functionName' args' named' name'] at both
  obtain ⟨sameName,sameArgs,sameNamed⟩ := FunctionCall.mk.inj (Option.some.inj both)
  exact ⟨sameName.symm,sameArgs.symm,sameNamed.symm⟩

theorem rendering_faithful_quotes :
    readFunctionCall (tableFunctionSql "cdc_window".toList [.text "o'), [".toList,.none]
        [("a\" := ".toList,.list [.int 1,.int (-20)]),("lease".toList,.none)]) =
      some ⟨"cdc_window".toList,[.text "o'), [".toList,.none],
        given [("a\" := ".toList,.list [.int 1,.int (-20)]),("lease".toList,.none)]⟩ :=
  (rendering_faithful "cdc_window".toList (by decide) [.text "o'), [".toList,.none]
    [("a\" := ".toList,.list [.int 1,.int (-20)]),("lease".toList,.none)]).1

example : tableFunctionSql "cdc_window".toList [.text "o'brien".toList,.none]
    [("columns".toList,.list [.int 1,.int (-20)]),("lease".toList,.none)] =
    "SELECT * FROM cdc_window('o''brien', NULL, \"columns\" := [1, -20])".toList := by decide

end CdcSql
