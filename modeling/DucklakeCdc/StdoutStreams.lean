import DucklakeCdc.EndedTexts
import DucklakeCdc.StdoutLines

/-!
Reading a stream that a `StdoutSink` has written batch after batch. A write may fail on its
way, the batch may be written again, and the process may die in the middle of a line.
-/
namespace CdcStdout
open Programs JsonText JsonDumps OrderedDicts EndedTexts CdcBatch CdcCommitRecords

structure Printed where
  window : Json
  items : List Json
  commit : Json

def kind : Json → Option String
  | .dict members =>
    match members.lookup "type" with
    | some (.leaf (.str type)) => some type
    | _ => none
  | _ => none

structure Reading where
  done : List Printed := []
  inside : Option (Json × List Json) := none

/-- A window record begins a batch, also where another one has not been ended. -/
def Reading.step (r : Reading) (json : Json) : Reading :=
  if kind json = some "window" then { r with inside := some (json,[]) }
  else match r.inside with
    | none => r
    | some (window,items) =>
      if kind json = some "commit" then ⟨r.done ++ [⟨window,items,json⟩],none⟩
      else { r with inside := some (window,items ++ [json]) }

def readStream (stream : List Char) : List Printed :=
  (((ended '\n' stream).filterMap read).foldl Reading.step {}).done

section
variable (python : Texts)

def session (batches : List (Batch Item)) : List Char :=
  batches.foldl (fun stream batch => finalState (write (emit python) batch) stream) []

def Renders (record : Record Item) (json : Json) : Prop :=
  Recovers (jsonDefault python) (given python record) json

/-- Everything of the batch, in order. -/
structure Shows (batch : Batch Item) (printed : Printed) : Prop where
  window : Renders python (.window batch) printed.window
  items : List.Forall₂ (fun item json => Renders python (.item batch item) json) batch.items
    printed.items
  commit : Renders python (.commit batch) printed.commit

/-- The lines before the first record that is no JSON. -/
def linesOf : List (Record Item) → List (List Char)
  | [] => []
  | record :: records =>
    match line python record with
    | none => []
    | some written => written :: linesOf records

end

def Item.columns : Item → List (String × PyValue)
  | .change item => item.values
  | _ => []

instance (batch : Batch Item) : Decidable (PlainKeys batch) :=
  decidable_of_iff (∀ item ∈ batch.items, ∀ column ∈ item.columns, KnownKeys column.2) <| by
    constructor
    · exact fun plain item member => plain (.change item) member
    · intro plain item member
      cases item with
      | change item => exact plain item member
      | _ => exact fun _ no => absurd no List.not_mem_nil

def typeOf : Record Item → String
  | .window _ => "window"
  | .item _ item => item.type
  | .commit _ => "commit"

section
variable {python : Texts} {record : Record Item} {json : Json}

theorem type_mem (record : Record Item) :
    ("type",text (typeOf record)) ∈ (payload python record).entries := by
  cases record with
  | window batch =>
    rw [payload, entries_ofPairs (by simp)]
    exact List.mem_cons_self
  | item batch item =>
    rw [payload, entries_insert_new (type_new item)]
    exact List.mem_append_right _ (List.mem_singleton.mpr rfl)
  | commit batch =>
    rw [payload, entries_ofPairs (by simp)]
    exact List.mem_cons_self

theorem forall₂_both {α β : Type} {R S : α → β → Prop} {as : List α} {bs : List β}
    (first : List.Forall₂ R as bs) (second : List.Forall₂ S as bs) :
    List.Forall₂ (fun a b => R a b ∧ S a b) as bs := by
  induction first with
  | nil => exact .nil
  | cons here _ ih =>
    cases second with
    | cons there rest => exact .cons ⟨here,there⟩ (ih rest)

theorem forall₂_split {α β : Type} {R : α → β → Prop} {first second : List α} {bs : List β}
    (each : List.Forall₂ R (first ++ second) bs) : ∃ bs₁ bs₂, List.Forall₂ R first bs₁ ∧
      List.Forall₂ R second bs₂ ∧ bs = bs₁ ++ bs₂ := by
  induction first generalizing bs with
  | nil => exact ⟨[],bs,.nil,each,rfl⟩
  | cons a first ih =>
    cases each with
    | cons here rest =>
      obtain ⟨bs₁,bs₂,inner,outer,rfl⟩ := ih rest
      exact ⟨_ :: bs₁,bs₂,.cons here inner,outer,rfl⟩

theorem exists_of_forall₂_mem {α β : Type} {R : α → β → Prop} {as : List α} {bs : List β}
    (each : List.Forall₂ R as bs) {a : α} (member : a ∈ as) : ∃ b ∈ bs, R a b := by
  induction each with
  | nil => cases member
  | cons here _ ih =>
    rcases List.mem_cons.mp member with rfl | later
    · exact ⟨_,List.mem_cons_self,here⟩
    · obtain ⟨b,inside,there⟩ := ih later
      exact ⟨b,List.mem_cons_of_mem _ inside,there⟩

theorem lookup_of_mem {members : List (String × Json)} {name : String}
    (distinct : (members.map Prod.fst).Nodup) (member : (name,json) ∈ members) :
    members.lookup name = some json := by
  obtain ⟨value,found⟩ := lookup_isSome_of_mem (List.mem_map_of_mem member)
  obtain ⟨before,after,shape,_⟩ := List.lookup_eq_some_iff.mp found
  have inside : (name,value) ∈ members := by
    rw [shape]
    exact List.mem_append_right _ List.mem_cons_self
  cases List.inj_on_of_nodup_map distinct inside member rfl
  exact found

theorem kind_said (said : Renders python record json) : kind json = some (typeOf record) := by
  rw [Renders, given, struct] at said
  cases said with
  | dict same names values distinct =>
    rename_i sorted members
    rw [← List.forall₂_eq_eq_eq, List.forall₂_map_left_iff, List.forall₂_map_right_iff] at names
    rw [List.forall₂_map_left_iff, List.forall₂_map_right_iff] at values
    have inside : (Atom.str "type",text (typeOf record)) ∈ sorted :=
      same.mem_iff.mpr (List.mem_map_of_mem (type_mem record))
    obtain ⟨⟨name,value⟩,present,spelt,valued⟩ :=
      exists_of_forall₂_mem (forall₂_both names values) inside
    cases spelt
    cases valued
    rw [kind, lookup_of_mem distinct present]

end

section
variable {python : Texts} {batch : Batch Item} {records : List (Record Item)}

attribute [local irreducible] line

theorem finalState_emits (records : List (Record Item)) (before : List Char) :
    finalState (records.forM (emit python)) before =
      before ++ joined '\n' (linesOf python records) := by
  induction records generalizing before with
  | nil => simp [finalState, linesOf, joined]
  | cons record records ih =>
    change finalState (emit python record >>= fun _ => records.forM (emit python)) before = _
    rw [finalState, EStateM.run_bind, linesOf, emit]
    cases out : line python record with
    | none => exact (List.append_nil before).symm
    | some written =>
      refine (ih (before ++ (written ++ ['\n']))).trans ?_
      rw [List.append_assoc]
      rfl

theorem lines_first (python : Texts) (records : List (Record Item)) :
    List.Forall₂ (fun record written => line python record = some written)
      (records.take (linesOf python records).length) (linesOf python records) := by
  induction records with
  | nil => exact .nil
  | cons record records ih =>
    rw [linesOf]
    cases out : line python record with
    | none => exact .nil
    | some written => exact .cons out ih

theorem linesOf_all {lines : List (List Char)} (all : records.mapM (line python) = some lines) :
    linesOf python records = lines := by
  have each := mapM_eq_some_iff.mp all
  clear all
  induction each with
  | nil => rfl
  | cons here _ ih => simp only [linesOf, here, ih]

theorem length_linesOf (python : Texts) (records : List (Record Item)) :
    (linesOf python records).length ≤ records.length := by
  have taken := (lines_first python records).length_eq
  rw [List.length_take] at taken
  omega

theorem plainKeys_iff_length (python : Texts) (returned : Returned batch) : PlainKeys batch ↔
    (linesOf python (recordsOf batch)).length = (recordsOf batch).length := by
  constructor
  · intro plain
    obtain ⟨lines,all⟩ := lines_of_plainKeys python returned plain
    rw [linesOf_all all]
    exact (mapM_eq_some_iff.mp all).length_eq.symm
  · intro whole
    have first := lines_first python (recordsOf batch)
    rw [whole, List.take_length] at first
    exact plainKeys_of_lines (mapM_eq_some_iff.mpr first)

theorem lines_read {lines : List (List Char)}
    (typed : ∀ record ∈ records, Typed (given python record))
    (each : List.Forall₂ (fun record written => line python record = some written) records lines) :
    (∀ written ∈ lines, '\n' ∉ written) ∧
      List.Forall₂ (Renders python) records (lines.filterMap read) := by
  induction each with
  | nil => exact ⟨fun _ no => absurd no List.not_mem_nil,.nil⟩
  | cons here _ ih =>
    rw [List.forall_mem_cons] at typed
    obtain ⟨clean,members,told,recovers⟩ := tells_of_line typed.1 here
    obtain ⟨plain,rest⟩ := ih typed.2
    rw [List.filterMap_cons, told]
    exact ⟨List.forall_mem_cons.mpr ⟨clean,plain⟩,.cons recovers rest⟩

end

section
variable {python : Texts} {batch : Batch Item} {records : List (Record Item)} {jsons : List Json}

theorem type_item (item : Item) : item.type ≠ "window" ∧ item.type ≠ "commit" := by
  cases item <;> exact ⟨by simp [Item.type],by simp [Item.type]⟩

theorem step_window (r : Reading) {json : Json} (said : Renders python (.window batch) json) :
    r.step json = { r with inside := some (json,[]) } := if_pos (kind_said said)

theorem step_item {done : List Printed} {window : Json} {items : List Json} {item : Item}
    {json : Json} (said : Renders python (.item batch item) json) :
    Reading.step ⟨done,some (window,items)⟩ json = ⟨done,some (window,items ++ [json])⟩ := by
  have types := type_item item
  rw [Reading.step, kind_said said, if_neg (by simpa [typeOf] using types.1)]
  exact if_neg (by simpa [typeOf] using types.2)

theorem step_commit {done : List Printed} {window : Json} {items : List Json} {json : Json}
    (said : Renders python (.commit batch) json) :
    Reading.step ⟨done,some (window,items)⟩ json = ⟨done ++ [⟨window,items,json⟩],none⟩ := by
  rw [Reading.step, kind_said said, if_neg (by simp [typeOf])]
  exact if_pos rfl

theorem fold_items {items : List Item} {done : List Printed} {window : Json} {before : List Json}
    (each : List.Forall₂ (Renders python) (items.map (.item batch)) jsons) :
    jsons.foldl Reading.step ⟨done,some (window,before)⟩ =
      ⟨done,some (window,before ++ jsons)⟩ := by
  induction items generalizing before jsons with
  | nil =>
    cases each
    rw [List.append_nil]
    rfl
  | cons item items ih =>
    cases each with
    | cons here rest =>
      rw [List.foldl_cons, step_item here, ih rest, List.append_assoc, List.singleton_append]

theorem fold_batch (each : List.Forall₂ (Renders python) (recordsOf batch) jsons) :
    ∃ printed, Shows python batch printed ∧
      ∀ r : Reading, jsons.foldl Reading.step r = ⟨r.done ++ [printed],none⟩ := by
  rw [recordsOf, List.cons_append] at each
  cases each with
  | cons first rest =>
    rename_i window jsons
    obtain ⟨items,final,inner,last,rfl⟩ := forall₂_split rest
    cases last with
    | cons committed nothing =>
      cases nothing
      rename_i commit
      refine ⟨⟨window,items,commit⟩,⟨first,List.forall₂_map_left_iff.mp inner,committed⟩,?_⟩
      intro r
      rw [List.foldl_cons, step_window r first, List.foldl_append, fold_items inner,
        List.nil_append]
      exact step_commit committed

theorem fold_part (r : Reading) (none_ : ∀ other, .commit other ∉ records)
    (each : List.Forall₂ (Renders python) records jsons) :
    (jsons.foldl Reading.step r).done = r.done := by
  induction each generalizing r with
  | nil => rfl
  | @cons record json records jsons here _ ih =>
    have rest := fun r => ih r fun other member => none_ other (List.mem_cons_of_mem _ member)
    rw [List.foldl_cons, rest]
    cases record with
    | window batch => rw [step_window r here]
    | commit batch => exact absurd List.mem_cons_self (none_ batch)
    | item batch item =>
      obtain ⟨done,inside⟩ := r
      cases inside with
      | none =>
        rw [Reading.step, kind_said here, if_neg (by simpa [typeOf] using (type_item item).1)]
      | some begun => rw [step_item here]

end

section
variable {python : Texts} {batch : Batch Item} {batches : List (Batch Item)}

theorem session_eq (python : Texts) (batches : List (Batch Item)) : session python batches =
    (batches.map fun batch => joined '\n' (linesOf python (recordsOf batch))).flatten := by
  induction batches using List.reverseRecOn with
  | nil => rfl
  | append_singleton batches batch ih =>
    rw [session, List.foldl_append, List.foldl_cons, List.foldl_nil, ← session, write_eq,
      finalState_emits, ih]
    simp

theorem typed_taken (python : Texts) (returned : Returned batch) (k : Nat) :
    ∀ record ∈ (recordsOf batch).take k, Typed (given python record) :=
  fun record member => typed_records python returned record (List.mem_of_mem_take member)

theorem commit_last {k : Nat} (short : k < (recordsOf batch).length) :
    ∀ other, .commit other ∉ (recordsOf batch).take k := by
  intro other member
  have missing := commitRecords_take short
  have inside : other ∈ commitRecords ((recordsOf batch).take k) :=
    List.mem_filterMap.mpr ⟨_,member,rfl⟩
  rw [missing] at inside
  exact List.not_mem_nil inside

/-- The first lines of a write, but not the last, leave the batches that are read as they are. -/
theorem fold_cut (python : Texts) (returned : Returned batch) (r : Reading) {k : Nat}
    (most : k ≤ (linesOf python (recordsOf batch)).length) (short : k < (recordsOf batch).length) :
    ((((linesOf python (recordsOf batch)).take k).filterMap read).foldl Reading.step r).done =
      r.done := by
  have first := List.forall₂_take k (lines_first python (recordsOf batch))
  rw [List.take_take, Nat.min_eq_left most] at first
  exact fold_part r (commit_last short) (lines_read (typed_taken python returned k) first).2

theorem fold_session (python : Texts) (returned : ∀ batch ∈ batches, Returned batch) (r : Reading) :
    ∃ printed, List.Forall₂ (Shows python) (batches.filter PlainKeys) printed ∧
      (((batches.flatMap fun batch => linesOf python (recordsOf batch)).filterMap read).foldl
        Reading.step r).done = r.done ++ printed := by
  induction batches generalizing r with
  | nil => exact ⟨[],.nil,(List.append_nil _).symm⟩
  | cons batch batches ih =>
    rw [List.forall_mem_cons] at returned
    simp only [List.flatMap_cons, List.filterMap_append, List.foldl_append]
    have whole := plainKeys_iff_length python returned.1
    by_cases plain : PlainKeys batch
    · have first := lines_first python (recordsOf batch)
      rw [whole.mp plain, List.take_length] at first
      have read := (lines_read (typed_records python returned.1) first).2
      obtain ⟨one,shows,folded⟩ := fold_batch read
      obtain ⟨printed,each,rest⟩ := ih returned.2 ⟨r.done ++ [one],none⟩
      refine ⟨one :: printed,?_,?_⟩
      · rw [List.filter_cons_of_pos (by simpa using plain)]
        exact .cons shows each
      · rw [folded, rest, List.append_assoc, List.singleton_append]
    · have short := lt_of_le_of_ne (length_linesOf python (recordsOf batch))
        fun same => plain (whole.mpr same)
      have kept := fold_cut python returned.1 r (Nat.le_refl _) short
      rw [List.take_length] at kept
      obtain ⟨printed,each,rest⟩ := ih returned.2
        (((linesOf python (recordsOf batch)).filterMap read).foldl Reading.step r)
      refine ⟨printed,?_,?_⟩
      · rwa [List.filter_cons_of_neg (by simpa using plain)]
      · rw [rest, kept]

theorem clean_linesOf (python : Texts) (returned : Returned batch) :
    ∀ written ∈ linesOf python (recordsOf batch), '\n' ∉ written :=
  (lines_read (typed_taken python returned _) (lines_first python (recordsOf batch))).1

theorem part_of_write (returned : Returned batch) {part : List Char}
    (short : part <+: joined '\n' (linesOf python (recordsOf batch)))
    (less : part ≠ joined '\n' (linesOf python (recordsOf batch))) :
    ∃ lines rest, part = joined '\n' lines ++ rest ∧ '\n' ∉ rest ∧
      (∀ written ∈ lines, '\n' ∉ written) ∧
      ∀ r : Reading, ((lines.filterMap read).foldl Reading.step r).done = r.done := by
  obtain ⟨k,within,text,member,rest,inside,rfl⟩ := cut_joined short less
  have clean := clean_linesOf python returned
  have most := length_linesOf python (recordsOf batch)
  refine ⟨_,rest,rfl,fun ended => clean text member (inside.subset ended),?_,?_⟩
  · exact fun written taken => clean written (List.mem_of_mem_take taken)
  · exact fun r => fold_cut python returned r within.le (by omega)

/-- However much of the stream is there: it ends in one of the writes, and a reader finds the
    batches of the writes before that one, with everything they hold and in order, except
    those that could not be printed. -/
theorem stream_recovers (python : Texts) (batches : List (Batch Item))
    (returned : ∀ batch ∈ batches, Returned batch) (cut : List Char)
    (short : cut <+: session python batches) :
    ∃ n ≤ batches.length, session python (batches.take n) <+: cut ∧
      (n < batches.length → ¬ session python (batches.take (n + 1)) <+: cut) ∧
      List.Forall₂ (Shows python) ((batches.take n).filter PlainKeys) (readStream cut) := by
  rw [session_eq] at short
  obtain ⟨n,most,part,rfl,which⟩ := cut_flatten short
  rw [List.length_map] at most which
  have written : ∀ m, session python (batches.take m) = ((batches.map fun batch =>
      joined '\n' (linesOf python (recordsOf batch))).take m).flatten := by
    intro m
    rw [session_eq, List.map_take]
  have part_ : ∃ lines rest, part = joined '\n' lines ++ rest ∧ '\n' ∉ rest ∧
      (∀ written ∈ lines, '\n' ∉ written) ∧
      ∀ r : Reading, ((lines.filterMap read).foldl Reading.step r).done = r.done := by
    rcases which with ⟨_,rfl⟩ | ⟨piece,next,inside,other⟩
    · exact ⟨[],[],rfl,List.not_mem_nil,fun _ no => absurd no List.not_mem_nil,fun _ => rfl⟩
    · rw [List.getElem?_map, Option.map_eq_some_iff] at next
      obtain ⟨batch,there,rfl⟩ := next
      exact part_of_write (returned batch (List.mem_of_getElem? there)) inside other
  refine ⟨n,most,?_,?_,?_⟩
  · rw [written]
    exact List.prefix_append _ _
  · intro less
    rw [written]
    rcases which with ⟨all,_⟩ | ⟨piece,next,inside,other⟩
    · omega
    · exact not_next next inside other
  · obtain ⟨lines,rest,rfl,open_,clean,kept⟩ := part_
    have before : ∀ batch ∈ batches.take n, Returned batch :=
      fun batch member => returned batch (List.mem_of_mem_take member)
    obtain ⟨printed,each,folded⟩ := fold_session python before {}
    have texts : ∀ written ∈ ((batches.take n).flatMap fun batch =>
        linesOf python (recordsOf batch)) ++ lines, '\n' ∉ written := by
      intro written member
      rcases List.mem_append.mp member with earlier | last
      · obtain ⟨batch,taken,inside⟩ := List.mem_flatMap.mp earlier
        exact clean_linesOf python (before batch taken) written inside
      · exact clean written last
    rw [readStream, ← List.map_take, ← joined_flatMap, ← List.append_assoc, ← joined_append,
      ended_joined texts open_, List.filterMap_append, List.foldl_append, kept, folded]
    exact each

end

def brokenOff : List Char :=
  (session iso [orders plainColumn,orders plainColumn]).dropLast

theorem stream_broken_off : ∃ n ≤ 2,
    session iso ([orders plainColumn,orders plainColumn].take n) <+: brokenOff ∧
      (n < 2 → ¬ session iso ([orders plainColumn,orders plainColumn].take (n + 1)) <+: brokenOff) ∧
      List.Forall₂ (Shows iso) (([orders plainColumn,orders plainColumn].take n).filter PlainKeys)
        (readStream brokenOff) := by
  refine stream_recovers iso [orders plainColumn,orders plainColumn] ?_ brokenOff
    (List.dropLast_prefix _)
  intro batch member
  have same : batch = orders plainColumn := by simpa using member
  rw [same]
  exact returned_orders (by decide)

end CdcStdout
