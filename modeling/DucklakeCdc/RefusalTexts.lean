import DucklakeCdc.ConsumerSetup

/-!
The texts of the errors that setup raises by itself. Whether an error is transient is read
off its text, and these texts quote the consumer's name; they read as transient only where
the printed name already does.
-/
namespace CdcRefusals
open CdcRetry CdcSetup

theorem infix_of_append_cons {α : Type} {needle before after : List α} {separator : α}
    (missing : separator ∉ needle) (found : needle <:+: before ++ separator :: after) :
    needle <:+: before ∨ needle <:+: after := by
  obtain ⟨start,rest,eq⟩ := found
  rcases List.append_eq_append_iff.mp eq with ⟨gap,left,_⟩ | ⟨gap,left,right⟩
  · exact Or.inl ⟨start,gap,left.symm⟩
  · cases gap with
    | nil =>
      rw [List.append_nil] at left
      exact Or.inl ⟨start,[],by rw [List.append_nil, left]⟩
    | cons first gap =>
      obtain ⟨rfl,tail⟩ := List.cons.inj right
      rcases List.append_eq_append_iff.mp left with ⟨more,_,cut⟩ | ⟨more,_,cut⟩
      · exact absurd (by rw [cut]; exact List.mem_append_right _ List.mem_cons_self) missing
      · cases more with
        | nil =>
          rw [List.nil_append] at cut
          exact absurd (by rw [← cut]; exact List.mem_cons_self) missing
        | cons head more =>
          obtain ⟨_,inner⟩ := List.cons.inj cut
          right
          refine ⟨more,rest,?_⟩
          rw [tail, inner]
          rfl

theorem lower_append (first second : String) : lower (first ++ second) = lower first ++ lower second := by
  simp [lower]

/-- A literal's text; evaluating `lower` on the literal itself would take its encoding apart. -/
theorem lower_ofList (text : List Char) : lower (String.ofList text) = text.flatMap lowerChar := by
  rw [lower, String.toList_ofList]

theorem not_infix_of_missing {needle text : List Char} {c : Char} (inside : c ∈ needle)
    (missing : c ∉ text) : ¬ needle <:+: text :=
  fun found => missing (found.subset inside)

theorem transientMessage_iff {message : String} : transientMessage message = true ↔
    "database is locked".toList <:+: lower message ∨
      "thread::join failed".toList <:+: lower message := by
  rw [transientMessage, Bool.or_eq_true, textContains_iff, textContains_iff]

theorem not_transient_of_missing {message : String} (first second : Char)
    (inside : first ∈ "database is locked".toList ∧ second ∈ "thread::join failed".toList)
    (missing : first ∉ lower message ∧ second ∉ lower message) :
    transientMessage message = false := by
  rw [← Bool.not_eq_true, transientMessage_iff]
  rintro (locked | failed)
  · exact not_infix_of_missing inside.1 missing.1 locked
  · exact not_infix_of_missing inside.2 missing.2 failed

def Bland (message : String) : Prop := 'k' ∉ lower message ∧ 'j' ∉ lower message

instance (message : String) : Decidable (Bland message) := by
  unfold Bland
  infer_instance

theorem bland_ofList {text : List Char}
    (missing : 'k' ∉ text.flatMap lowerChar ∧ 'j' ∉ text.flatMap lowerChar) :
    Bland (String.ofList text) := by
  rw [Bland, lower_ofList]
  exact missing

theorem bland_append {first second : String} (h : Bland first) (h' : Bland second) :
    Bland (first ++ second) := by
  constructor
  · rw [lower_append, List.mem_append]
    exact fun found => found.elim h.1 h'.1
  · rw [lower_append, List.mem_append]
    exact fun found => found.elim h.2 h'.2

theorem bland_not_transient {message : String} (h : Bland message) :
    transientMessage message = false :=
  not_transient_of_missing 'k' 'j' (by decide) h

section
variable {p : Platform} {name before after : String}

theorem lower_repr (name : String) : ∃ quote body, (quote = apostrophe ∨ quote = '"') ∧
    lower (pyRepr p name) = quote :: body ++ [quote] := by
  let quote := if name.toList.contains apostrophe && !name.toList.contains '"' then '"'
    else apostrophe
  refine ⟨quote,(name.toList.flatMap (reprChar p quote)).flatMap lowerChar,?_,?_⟩
  · by_cases single : (name.toList.contains apostrophe && !name.toList.contains '"') = true
    · exact Or.inr (if_pos single)
    · exact Or.inl (if_neg single)
  · have kept : lowerChar quote = [quote] := by
      have marks : lowerChar '"' = ['"'] ∧ lowerChar apostrophe = [apostrophe] := by decide
      change lowerChar (if _ then _ else _) = [if _ then _ else _]
      split
      · exact marks.1
      · exact marks.2
    simp only [lower, pyRepr, String.toList_ofList, List.flatMap_append, List.flatMap_cons,
      List.flatMap_nil, List.append_nil]
    rw [kept]
    rfl

/-- A phrase without quotes that is found in a text around the printed name is found in
    the printed name. -/
theorem infix_of_quoted {needle : List Char} (plain : apostrophe ∉ needle ∧ '"' ∉ needle)
    (first : ¬ needle <:+: lower before) (last : ¬ needle <:+: lower after)
    (found : needle <:+: lower (before ++ pyRepr p name ++ after)) :
    needle <:+: lower (pyRepr p name) := by
  obtain ⟨quote,body,mark,printed⟩ := lower_repr (p := p) name
  have missing : quote ∉ needle := by
    rcases mark with rfl | rfl
    · exact plain.1
    · exact plain.2
  have text : lower (before ++ pyRepr p name ++ after) =
      lower before ++ quote :: (body ++ quote :: lower after) := by
    rw [lower_append, lower_append, printed]
    simp
  rw [text] at found
  have inside := (infix_of_append_cons missing found).resolve_left first
  have quoted := (infix_of_append_cons missing inside).resolve_right last
  rw [printed]
  obtain ⟨start,rest,eq⟩ := quoted
  refine ⟨quote :: start,rest ++ [quote],?_⟩
  rw [← eq]
  simp

/-- The printed name is not itself the text of a transient error. -/
def Unmistakable (p : Platform) (name : String) : Prop := transientMessage (pyRepr p name) = false

theorem quoted_not_transient (h : Unmistakable p name) (first : Bland before) (last : Bland after) :
    transientMessage (before ++ pyRepr p name ++ after) = false := by
  have printed := h
  rw [Unmistakable, ← Bool.not_eq_true, transientMessage_iff] at printed
  rw [← Bool.not_eq_true, transientMessage_iff]
  rintro (locked | failed)
  · exact printed (Or.inl (infix_of_quoted (by decide)
      (not_infix_of_missing (by decide) first.1) (not_infix_of_missing (by decide) last.1) locked))
  · exact printed (Or.inr (infix_of_quoted (by decide)
      (not_infix_of_missing (by decide) first.2) (not_infix_of_missing (by decide) last.2) failed))

end

def isDigitChar (c : Char) : Prop := ∃ d < 16, c = Nat.digitChar d

theorem isDigitChar_of_mem {base n : Nat} {c : Char} (two : 1 < base) (few : base ≤ 16)
    (member : c ∈ Nat.toDigits base n) : isDigitChar c := by
  induction n using Nat.strongRecOn with
  | ind n ih =>
    by_cases short : n < base
    · rw [Nat.toDigits_of_lt_base short, List.mem_singleton] at member
      exact ⟨n,by omega,member⟩
    · rw [Nat.toDigits_of_base_le two (by omega), List.mem_append, List.mem_singleton] at member
      rcases member with higher | last
      · exact ih (n / base) (Nat.div_lt_self (by omega) two) higher
      · have below := Nat.mod_lt n (by omega : base > 0)
        exact ⟨n % base,by omega,last⟩

theorem lowerChar_digit {c : Char} (digit : isDigitChar c) :
    'k' ∉ lowerChar c ∧ 'j' ∉ lowerChar c := by
  obtain ⟨d,below,rfl⟩ := digit
  revert d
  decide

theorem bland_of_chars {message : String}
    (plain : ∀ c ∈ message.toList, 'k' ∉ lowerChar c ∧ 'j' ∉ lowerChar c) : Bland message := by
  constructor
  · intro found
    obtain ⟨c,inside,here⟩ := List.mem_flatMap.mp found
    exact (plain c inside).1 here
  · intro found
    obtain ⟨c,inside,here⟩ := List.mem_flatMap.mp found
    exact (plain c inside).2 here

theorem bland_uuidText (token : BitVec 128) : Bland (uuidText token) := by
  have digits : ∀ c ∈ hexDigits 32 token.toNat, 'k' ∉ lowerChar c ∧ 'j' ∉ lowerChar c := by
    intro c member
    rcases List.mem_append.mp member with padding | digit
    · rw [List.eq_of_mem_replicate padding]
      decide
    · exact lowerChar_digit (isDigitChar_of_mem (by decide) (by decide) digit)
  have dash : 'k' ∉ lowerChar '-' ∧ 'j' ∉ lowerChar '-' := by decide
  apply bland_of_chars
  intro c member
  simp only [uuidText, String.toList_ofList, List.mem_append, List.mem_cons] at member
  rcases member with (((first | rfl | second) | rfl | third) | rfl | fourth) | rfl | last
  · exact digits c (List.mem_of_mem_take first)
  · exact dash
  · exact digits c (List.mem_of_mem_drop (List.mem_of_mem_take second))
  · exact dash
  · exact digits c (List.mem_of_mem_drop (List.mem_of_mem_take third))
  · exact dash
  · exact digits c (List.mem_of_mem_drop (List.mem_of_mem_take fourth))
  · exact dash
  · exact digits c (List.mem_of_mem_drop last)

theorem bland_ownerText (entry : ConsumerListEntry) : Bland (ownerText entry) := by
  unfold ownerText
  cases entry.ownerToken with
  | none =>
    change Bland "None"
    exact bland_ofList (by decide)
  | some token => exact bland_uuidText token

theorem bland_nat (n : Nat) : Bland (toString n) := by
  apply bland_of_chars
  intro c member
  rw [Nat.toString_eq_ofList_toDigits, String.toList_ofList] at member
  exact lowerChar_digit (isDigitChar_of_mem (by decide) (by decide) member)

theorem bland_int (n : Int) : Bland (toString n) := by
  cases n with
  | ofNat n => exact bland_nat n
  | negSucc n =>
    have sign : Bland "-" := bland_ofList (by decide)
    exact bland_append sign (bland_nat (n + 1))

theorem bland_formatTenths (seconds : ℚ) : Bland (formatTenths seconds) :=
  bland_append (bland_append (bland_int _) (bland_ofList (by decide))) (bland_int _)

section
variable {p : Platform} {c : Config} (h : Unmistakable p c.name)
include h

theorem existsError_not_transient : isTransientError (existsError p c) = false :=
  quoted_not_transient h (bland_ofList (by decide)) (bland_ofList (by decide))

theorem leasedError_not_transient (entry : ConsumerListEntry) :
    isTransientError (leasedError p c entry) = false := by
  have after : Bland (" is leased by " ++ ownerText entry ++
      " and lease_policy='error' was requested") :=
    bland_append (bland_append (bland_ofList (by decide)) (bland_ownerText entry))
      (bland_ofList (by decide))
  have before : Bland "consumer " := bland_ofList (by decide)
  have text := quoted_not_transient h before after
  simpa only [leasedError, isTransientError, String.append_assoc] using text

theorem waitedError_not_transient (entry : ConsumerListEntry) :
    isTransientError (waitedError p c entry) = false := by
  have before : Bland ("timed out after " ++ formatTenths c.leaseWaitTimeout ++
      "s waiting for consumer ") :=
    bland_append (bland_append (bland_ofList (by decide)) (bland_formatTenths _))
      (bland_ofList (by decide))
  have after : Bland (" lease (held by " ++ ownerText entry ++ ")") :=
    bland_append (bland_append (bland_ofList (by decide)) (bland_ownerText entry))
      (bland_ofList (by decide))
  have text := quoted_not_transient h before after
  simpa only [waitedError, isTransientError, String.append_assoc] using text

end
end CdcRefusals
