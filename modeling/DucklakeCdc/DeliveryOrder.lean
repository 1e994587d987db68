import DucklakeCdc.BatchCounts

/-!
The order of the writes in one execution of `run`: batch after batch, each to the sinks in
their order. At any moment every sink has had the batches whose commit has returned, and
at most one batch more.
-/
namespace DeliveryOrder
open Histories CdcBatch CdcRetry CdcLoop CdcDelivery DeliveryProtocol
open CdcGenerator (committed)
variable {ι : Type}

def writes (trace : List (Event ι)) : List (Nat × Batch ι) :=
  trace.filterMap fun
    | .wrote i b _ => some (i,b)
    | _ => none

def ofSink (i : Nat) (ws : List (Nat × Batch ι)) : List (Batch ι) :=
  ws.filterMap fun write => if write.1 = i then some write.2 else none

def round (n : Nat) (b : Batch ι) : List (Nat × Batch ι) := (List.range n).map (·,b)

/-- All writes of the batches that are committed, and then `more`. -/
def InOrder (sinks : List Sink) (trace : List (Event ι)) (more : List (Nat × Batch ι)) : Prop :=
  writes trace = (committed trace).flatMap (round sinks.length) ++ more

def Ordered (sinks : List Sink) (trace : List (Event ι)) : Phase ι → Prop
  | .ended => ∃ last n, n ≤ sinks.length ∧ InOrder sinks trace (round n last)
  | .delivering b n => n ≤ sinks.length ∧ InOrder sinks trace (round n b)
  | _ => InOrder sinks trace []

section
variable {sinks : List Sink} {p q : Phase ι} {trace : List (Event ι)} {event : Event ι}
  {more : List (Nat × Batch ι)}

theorem writes_snoc : writes (trace ++ [event]) = writes trace ++ writes [event] :=
  List.filterMap_append

theorem committed_snoc : committed (trace ++ [event]) =
    committed trace ++ committed [event] := List.filterMap_append

theorem round_succ (n : Nat) (b : Batch ι) : round (n + 1) b = round n b ++ [(n,b)] := by
  rw [round, List.range_succ, List.map_append]
  rfl

theorem inOrder_silent (h : InOrder sinks trace more) (unwritten : writes [event] = [])
    (uncommitted : committed [event] = []) : InOrder sinks (trace ++ [event]) more := by
  rw [InOrder, writes_snoc, committed_snoc, unwritten, uncommitted, List.append_nil, List.append_nil]
  exact h

theorem inOrder_wrote {i : Nat} {b : Batch ι} (raised : Option Exc)
    (h : InOrder sinks trace (round i b)) :
    InOrder sinks (trace ++ [.wrote i b raised]) (round (i + 1) b) := by
  have none_ : committed [Event.wrote i b raised] = [] := rfl
  rw [InOrder, writes_snoc, committed_snoc, none_, List.append_nil, round_succ, ← List.append_assoc]
  exact congrArg (· ++ [(i,b)]) h

theorem inOrder_committed {b : Batch ι} (moved : Bool)
    (h : InOrder sinks trace (round sinks.length b)) :
    InOrder sinks (trace ++ [.commitCalled b moved none]) [] := by
  have one : committed [Event.commitCalled b moved none] = [b] := rfl
  rw [InOrder, writes_snoc, committed_snoc, one, List.flatMap_append, List.flatMap_singleton,
    List.append_nil]
  exact (List.append_nil _).trans h

theorem ordered_silent (h : Ordered sinks trace p) (unwritten : writes [event] = [])
    (uncommitted : committed [event] = []) : Ordered sinks (trace ++ [event]) p := by
  cases p with
  | ended =>
    obtain ⟨last,n,below,order⟩ := h
    exact ⟨last,n,below,inOrder_silent order unwritten uncommitted⟩
  | delivering b n => exact ⟨h.1,inOrder_silent h.2 unwritten uncommitted⟩
  | ready => exact inOrder_silent h unwritten uncommitted
  | settled b => exact inOrder_silent h unwritten uncommitted

theorem ordered_awaits {b : Batch ι} {i : Nat} (h : Ordered sinks trace p) (next : p.Awaits b i) :
    InOrder sinks trace (round i b) := by
  rcases next with ⟨rfl,rfl⟩ | rfl
  · exact h
  · exact h.2

theorem below_of_at {i : Nat} {sink : Sink} (at_ : sinks[i]? = some sink) : i + 1 ≤ sinks.length := by
  obtain ⟨inside,_⟩ := List.getElem?_eq_some_iff.mp at_
  exact inside

theorem ordered_snoc (running : isStarted event = false) (step : Follows sinks p event q)
    (h : Ordered sinks trace p) : Ordered sinks (trace ++ [event]) q := by
  cases step with
  | started => contradiction
  | landed => exact ordered_silent h rfl rfl
  | listened idle =>
    cases p with
    | ready => exact inOrder_silent h rfl rfl
    | settled b => exact inOrder_silent h rfl rfl
    | ended => exact idle.elim
    | delivering b n => exact idle.elim
  | @passed _ i b raised sink next at_ pass =>
    exact ⟨below_of_at at_,inOrder_wrote raised (ordered_awaits h next)⟩
  | @refused _ i b raised sink next at_ fail =>
    exact ⟨b,i + 1,below_of_at at_,inOrder_wrote raised (ordered_awaits h next)⟩
  | retried => exact ordered_silent h rfl rfl
  | committed => exact inOrder_committed _ h.2

theorem path_ordered (running : ∀ event ∈ trace, isStarted event = false)
    (path : Path (Follows sinks) .ready trace q) : Ordered sinks trace q := by
  induction trace using List.reverseRecOn generalizing q with
  | nil =>
    cases path
    exact rfl
  | append_singleton trace event ih =>
    obtain ⟨p,before,last⟩ := path_split path
    cases last with
    | cons first rest =>
      cases rest
      refine ordered_snoc (running event (by simp)) first (ih ?_ before)
      exact fun event member => running event (List.mem_append_left _ member)

def Begun (sinks : List Sink) (more : List (Nat × Batch ι)) : Prop :=
  more = [] ∨ ∃ last n, n ≤ sinks.length ∧ more = round n last

theorem inOrder_of_ordered (h : Ordered sinks trace p) :
    ∃ more, Begun sinks more ∧ InOrder sinks trace more := by
  cases p with
  | ended =>
    obtain ⟨last,n,below,order⟩ := h
    exact ⟨_,Or.inr ⟨last,n,below,rfl⟩,order⟩
  | delivering b n => exact ⟨_,Or.inr ⟨b,n,h.1,rfl⟩,h.2⟩
  | ready => exact ⟨[],Or.inl rfl,h⟩
  | settled b => exact ⟨[],Or.inl rfl,h⟩

theorem ofSink_append (i : Nat) (ws more : List (Nat × Batch ι)) :
    ofSink i (ws ++ more) = ofSink i ws ++ ofSink i more := List.filterMap_append

theorem ofSink_round (i n : Nat) (b : Batch ι) : ofSink i (round n b) = if i < n then [b] else [] := by
  induction n with
  | zero => rfl
  | succ n ih =>
    rw [round_succ, ofSink_append, ih]
    by_cases last : n = i
    · subst i
      simp [ofSink]
    · have here : ofSink i [(n,b)] = [] := by simp [ofSink, last]
      rw [here, List.append_nil]
      exact if_congr (by omega) rfl rfl

theorem ofSink_rounds {i n : Nat} (below : i < n) (bs : List (Batch ι)) :
    ofSink i (bs.flatMap (round n)) = bs := by
  induction bs with
  | nil => rfl
  | cons b rest ih =>
    rw [List.flatMap_cons, ofSink_append, ofSink_round, if_pos below, ih]
    rfl

theorem ofSink_begun (i : Nat) (begun : Begun sinks more) : (ofSink i more).length ≤ 1 := by
  rcases begun with rfl | ⟨last,n,_,rfl⟩
  · exact Nat.zero_le 1
  · rw [ofSink_round]
    split <;> simp

end

/-- At any moment of an execution of `run`, the writes so far are the committed batches in
    their order, each to all sinks in turn, and then one more batch to the first sinks of
    the list: so each sink has had the committed batches, and at most one more. -/
theorem writes_in_order (cdc : Extension ι) (c : Consumer) (log : SnapshotLog ι) (start : Int)
    (xs : List (Execution ι)) :
    let w := executions cdc c (World.initial log start) xs
    ∀ before during after, w.trace = before ++ .started :: (during ++ after) →
      (∀ event ∈ during, isStarted event = false) →
      (∃ more, Begun c.sinks more ∧ InOrder c.sinks during more) ∧
      ∀ i, i < c.sinks.length → ∃ rest, rest.length ≤ 1 ∧
        ofSink i (writes during) = committed during ++ rest := by
  intro w before during after split running
  obtain ⟨p,ledger⟩ := executions_recorded cdc c log start xs
  have path := ledger.path
  rw [split] at path
  obtain ⟨_,q,_,step,rest⟩ := path_at path
  cases step with
  | started =>
    obtain ⟨_,during_,_⟩ := path_split rest
    obtain ⟨more,begun,order⟩ := inOrder_of_ordered (path_ordered running during_)
    refine ⟨⟨more,begun,order⟩,fun i below => ⟨ofSink i more,ofSink_begun i begun,?_⟩⟩
    rw [order, ofSink_append, ofSink_rounds below]

end DeliveryOrder
