import DucklakeCdc.QueryErrors

/-!
Which connection a `CDCClient` speaks on (`client/client.py`, `prewarm.py`). A client has a
lake, not a connection: every call asks the lake for one again (`_connection_for_lake`).
What was sent, to whom, and what came back is kept.
-/
namespace CdcClients
open Programs CdcRetry CdcTransient
variable {κ ρ : Type}

/-- What `getattr` finds on the object given as the lake; `cursor` (of its connection) and
    `rawConnection`, where they can be called, answer the n-th call. -/
structure Lake (κ : Type) where
  alias_ : Option String := none
  executes : Bool := false
  connection : Option κ := none
  cursor : Option (Nat → Except Exc κ) := none
  rawConnection : Option (Nat → Except Exc (Option κ)) := none

def Lake.name (lake : Lake κ) : String := lake.alias_.getD "lake"

def pinnedConnectionLake (connection : κ) (alias_ : String) : Lake κ where
  alias_ := some alias_
  connection := some connection

inductive Handle (κ : Type) where
  | lake
  | connection (connection : κ)

structure Sent (κ ρ : Type) where
  handle : Handle κ
  sql : List Char
  answer : Except Exc ρ

structure Wire (κ ρ : Type) where
  sent : List (Sent κ ρ) := []
  rawCalls : Nat := 0
  cursors : Nat := 0

/-- The other side: `answer n` is what the n-th statement meets, `fetchone` what a cursor gives,
    `none` where it has no such method. -/
structure Peer (ρ : Type) where
  answer : Nat → Except Exc ρ
  fetchone : ρ → Option (Except Exc (Option (List String)))
  repr : String → String

abbrev Speaks (κ ρ : Type) := EStateM Exc (Wire κ ρ)

def answered {α : Type} (answer : Except Exc α) : Speaks κ ρ α :=
  match answer with
  | .ok a => pure a
  | .error e => throw e

def execute (peer : Peer ρ) (handle : Handle κ) (sql : List Char) : Speaks κ ρ ρ := do
  let w ← get
  let sent : Sent κ ρ := ⟨handle,sql,peer.answer w.sent.length⟩
  set { w with sent := w.sent ++ [sent] }
  answered sent.answer

def noConnectionError : Exc :=
  .raised .typeError "lake must expose execute(), connection, or raw_connection()"

def connectionForLake (lake : Lake κ) : Speaks κ ρ κ :=
  match lake.connection, lake.rawConnection with
  | some connection, _ => pure connection
  | none, none => throw noConnectionError
  | none, some rawConnection => do
    let w ← get
    set { w with rawCalls := w.rawCalls + 1 }
    let connection ← answered (rawConnection w.rawCalls)
    match connection with
    | some connection => pure connection
    | none => throw noConnectionError

def executeOnLake (peer : Peer ρ) (lake : Lake κ) (sql : List Char) : Speaks κ ρ Unit :=
  if lake.executes then do
    let _ ← execute peer .lake sql
  else do
    let connection ← connectionForLake lake
    let _ ← execute peer (.connection connection) sql

def queryOnLake (peer : Peer ρ) (lake : Lake κ) (sql : List Char) : Speaks κ ρ ρ :=
  tryExcept Exc.isException
    (do
      let connection ← connectionForLake lake
      execute peer (.connection connection) sql)
    fun e => throw (queryError e)

def isExtensionIdentifier (repository : String) : Bool :=
  match repository.toList with
  | [] => false
  | c :: rest => (c.isAlpha || c == '_') && rest.all fun c => c.isAlphanum || c == '_'

def repositoryError (peer : Peer ρ) (repository : String) : Exc :=
  .raised .valueError ("invalid DuckDB extension repository: " ++ peer.repr repository)

def installSql (repository : String) : List Char :=
  ("INSTALL ducklake_cdc FROM " ++ repository).toList

def loadSql : List Char := "LOAD ducklake_cdc".toList

def installAndLoadExtension (peer : Peer ρ) (lake : Lake κ) (repository : String) :
    Speaks κ ρ Unit := do
  if isExtensionIdentifier repository then pure ()
  else throw (repositoryError peer repository)
  executeOnLake peer lake (installSql repository)
  executeOnLake peer lake loadSql

def versionSql : List Char := CdcQuery.scalarFunctionSql "cdc_version"

def noVersionError : Exc := .raised .runtimeError "cdc_version() returned no value"

def prewarm (peer : Peer ρ) (connection : κ) : Speaks κ ρ String := do
  let row ← tryExcept Exc.isException
    (do
      let cursor ← execute peer (.connection connection) versionSql
      match peer.fetchone cursor with
      | none => pure none
      | some fetched => answered fetched)
    fun e => throw (prewarmError e)
  match row with
  | some (version :: _) => pure version
  | _ => throw noVersionError

structure CDCClient (κ : Type) where
  lake : Lake κ
  catalog : String

structure ClientOptions where
  catalog : Option String := none
  installExtension : Bool := true
  extensionRepository : String := "community"
  prewarmConnection : Bool := true

def ClientOptions.catalogFor (o : ClientOptions) (lake : Lake κ) : String :=
  match o.catalog with
  | some catalog => if catalog = "" then lake.name else catalog
  | none => lake.name

def CDCClient.init (peer : Peer ρ) (lake : Lake κ) (o : ClientOptions) :
    Speaks κ ρ (CDCClient κ) := do
  (if o.installExtension then installAndLoadExtension peer lake o.extensionRepository
    else pure ())
  (if o.prewarmConnection then do
      let connection ← connectionForLake lake
      let _ ← prewarm peer connection
    else pure ())
  pure ⟨lake,o.catalogFor lake⟩

/-- A method that speaks to the database: what it sends next depends on the answers so far. -/
inductive Requests (ρ : Type) where
  | ends (raised : Option Exc)
  | query (sql : List Char) (next : Except Exc ρ → Requests ρ)

def Requests.run (send : List Char → Speaks κ ρ ρ) : Requests ρ → Speaks κ ρ Unit
  | .ends none => pure ()
  | .ends (some e) => throw e
  | .query sql next => fun w =>
    match (send sql).run w with
    | .ok r w' => (next (.ok r)).run send w'
    | .error e w' => (next (.error e)).run send w'

/-! What each of them does on the wire -/
section
variable {peer : Peer ρ} {lake : Lake κ} {handle : Handle κ} {sql : List Char} {w w' : Wire κ ρ}
  {k : κ} {P : Sent κ ρ → Prop}

def Lake.connectionAt (lake : Lake κ) (n : Nat) : Option κ :=
  match lake.connection, lake.rawConnection with
  | some connection, _ => some connection
  | none, none => none
  | none, some rawConnection => (rawConnection n).toOption.join

def Lake.Gives (lake : Lake κ) (k : κ) : Prop := ∀ n k', lake.connectionAt n = some k' → k' = k

/-- The lake never gives two connections. -/
def Lake.Fixed (lake : Lake κ) : Prop :=
  ∀ m n a b, lake.connectionAt m = some a → lake.connectionAt n = some b → a = b

theorem gives_of_fixed {n : Nat} (fixed : lake.Fixed) (given : lake.connectionAt n = some k) :
    lake.Gives k :=
  fun m k' given' => fixed m n k' k given' given

theorem connectionAt_own (own : lake.connection = some k) (n : Nat) :
    lake.connectionAt n = some k := by
  rw [Lake.connectionAt, own]

theorem gives_own (own : lake.connection = some k) : lake.Gives k := by
  intro n k' given
  rw [connectionAt_own own] at given
  exact (Option.some.inj given).symm

theorem fixed_pinned (connection : κ) (alias_ : String) :
    (pinnedConnectionLake connection alias_).Fixed := by
  intro m n a b first second
  have given : (pinnedConnectionLake connection alias_).Gives connection := gives_own rfl
  rw [given m a first, given n b second]

def Adds (P : Sent κ ρ → Prop) (w w' : Wire κ ρ) : Prop :=
  ∃ more, w'.sent = w.sent ++ more ∧ ∀ s ∈ more, P s

theorem adds_refl (same : w'.sent = w.sent) : Adds P w w' :=
  ⟨[],by rw [same, List.append_nil],by simp⟩

theorem adds_trans {w₁ w₂ w₃ : Wire κ ρ} (first : Adds P w₁ w₂) (second : Adds P w₂ w₃) :
    Adds P w₁ w₃ := by
  obtain ⟨more,sent,all⟩ := first
  obtain ⟨more',sent',all'⟩ := second
  refine ⟨more ++ more',by rw [sent', sent, List.append_assoc],?_⟩
  intro s member
  rcases List.mem_append.mp member with here | there
  · exact all s here
  · exact all' s there

theorem ends_answered {α : Type} {answer : Except Exc α} {ok : α → Wire κ ρ → Prop}
    {err : Exc → Wire κ ρ → Prop} (good : ∀ a, answer = .ok a → ok a w)
    (bad : ∀ e, answer = .error e → err e w) : Ends (answered answer) w ok err := by
  cases answer with
  | ok a => exact good a rfl
  | error e => exact bad e rfl

theorem ends_connectionForLake :
    Ends (connectionForLake lake : Speaks κ ρ κ) w
      (fun k w' => lake.connectionAt w.rawCalls = some k ∧ w'.sent = w.sent ∧
        (lake.connection = none → w'.rawCalls = w.rawCalls + 1))
      (fun _ w' => lake.connectionAt w.rawCalls = none ∧ w'.sent = w.sent ∧
        (lake.rawConnection ≠ none → w'.rawCalls = w.rawCalls + 1)) := by
  unfold connectionForLake Lake.connectionAt
  cases lake.connection with
  | some connection => exact ⟨rfl,rfl,fun no => nomatch no⟩
  | none =>
    cases raw : lake.rawConnection with
    | none => exact ⟨rfl,rfl,fun no => absurd rfl no⟩
    | some rawConnection =>
      simp only [ends_bind, ends_get, ends_set]
      refine ends_answered ?_ ?_
      · intro connection given
        rw [given]
        cases connection with
        | some connection => exact ⟨rfl,rfl,fun _ => rfl⟩
        | none => exact ⟨rfl,rfl,fun _ => rfl⟩
      · intro e given
        rw [given]
        exact ⟨rfl,rfl,fun _ => rfl⟩

theorem ends_execute :
    Ends (execute peer handle sql) w
      (fun r w' => w'.sent = w.sent ++ [⟨handle,sql,.ok r⟩] ∧ w'.rawCalls = w.rawCalls)
      (fun e w' => w'.sent = w.sent ++ [⟨handle,sql,.error e⟩] ∧ w'.rawCalls = w.rawCalls) := by
  rw [execute, ends_bind, ends_get, ends_bind, ends_set]
  refine ends_answered ?_ ?_
  · rintro r (given : peer.answer w.sent.length = .ok r)
    rw [given]
    exact ⟨rfl,rfl⟩
  · rintro e (given : peer.answer w.sent.length = .error e)
    rw [given]
    exact ⟨rfl,rfl⟩

/-- `except Exception as exc: raise ... from exc`. -/
theorem ends_rethrown {α : Type} {p : Speaks κ ρ α} {wrapped : Exc → Exc}
    {ok : α → Wire κ ρ → Prop} {err : Exc → Wire κ ρ → Prop}
    (other : ∀ e, e.isException = false → wrapped e = e) :
    Ends (tryExcept Exc.isException p fun e => throw (wrapped e)) w ok err ↔
      Ends p w ok fun e => err (wrapped e) := by
  have same : ∀ e t, (if e.isException then Ends (throw (wrapped e) : Speaks κ ρ α) t ok err
      else err e t) = err (wrapped e) t := by
    intro e t
    cases caught : e.isException with
    | true => rfl
    | false => rw [other e caught]; rfl
  rw [ends_tryExcept]
  simp only [same]

theorem queryError_other (e : Exc) (other : e.isException = false) : queryError e = e := by
  rw [queryError, other]
  rfl

theorem prewarmError_other (e : Exc) (other : e.isException = false) : prewarmError e = e := by
  rw [prewarmError, other]
  rfl

theorem ends_queryOnLake :
    Ends (queryOnLake peer lake sql) w
      (fun _ w' => ∃ k answer, lake.connectionAt w.rawCalls = some k ∧
        w'.sent = w.sent ++ [⟨.connection k,sql,answer⟩] ∧
        (lake.connection = none → w'.rawCalls = w.rawCalls + 1))
      (fun _ w' => (lake.connection = none → lake.rawConnection ≠ none →
          w'.rawCalls = w.rawCalls + 1) ∧
        (lake.connectionAt w.rawCalls = none ∧ w'.sent = w.sent ∨
          ∃ k answer, lake.connectionAt w.rawCalls = some k ∧
            w'.sent = w.sent ++ [⟨.connection k,sql,answer⟩])) := by
  rw [queryOnLake, ends_rethrown queryError_other, ends_bind]
  refine ends_mono ends_connectionForLake ?_ ?_
  · rintro k u ⟨given,sent,counted⟩
    refine ends_mono ends_execute ?_ ?_
    · rintro r v ⟨added,calls⟩
      exact ⟨k,_,given,by rw [added, sent],fun raw => by rw [calls, counted raw]⟩
    · rintro e v ⟨added,calls⟩
      refine ⟨fun raw _ => calls.trans (counted raw),Or.inr ⟨k,.error e,given,?_⟩⟩
      rw [added, sent]
  · rintro e u ⟨none_,sent,counted⟩
    exact ⟨fun _ raw => counted raw,Or.inl ⟨none_,sent⟩⟩

theorem ends_prewarm :
    Ends (prewarm peer k) w
      (fun _ w' => ∃ r, w'.sent = w.sent ++ [⟨.connection k,versionSql,.ok r⟩])
      (fun _ w' => ∃ answer, w'.sent = w.sent ++ [⟨.connection k,versionSql,answer⟩]) := by
  rw [prewarm, ends_bind, ends_rethrown prewarmError_other, ends_bind]
  refine ends_mono ends_execute ?_ ?_
  · rintro r u ⟨added,_⟩
    have here : ∃ r, u.sent = w.sent ++ [⟨.connection k,versionSql,.ok r⟩] := ⟨r,added⟩
    have failed : ∃ answer, u.sent = w.sent ++ [⟨.connection k,versionSql,answer⟩] := ⟨_,added⟩
    have read : ∀ row : Option (List String), Ends (match row with
        | some (version :: _) => pure version
        | _ => throw noVersionError : Speaks κ ρ String) u
        (fun _ w' => ∃ r, w'.sent = w.sent ++ [⟨.connection k,versionSql,.ok r⟩])
        (fun _ w' => ∃ answer, w'.sent = w.sent ++ [⟨.connection k,versionSql,answer⟩]) := by
      intro row
      split
      · exact here
      · exact failed
    cases peer.fetchone r with
    | none => exact read none
    | some fetched =>
      refine ends_answered (fun row _ => read row) (fun e _ => failed)
  · rintro e u ⟨added,_⟩
    exact ⟨_,added⟩

theorem ends_init {o : ClientOptions} (skips : o.installExtension = false)
    (warms : o.prewarmConnection = true) (own : lake.connection = some k) :
    Ends (CDCClient.init peer lake o) w
      (fun client w' => client.lake = lake ∧
        ∃ r, w'.sent = w.sent ++ [⟨.connection k,versionSql,.ok r⟩])
      (fun _ w' => ∃ answer, w'.sent = w.sent ++ [⟨.connection k,versionSql,answer⟩]) := by
  have given : connectionForLake lake = (pure k : Speaks κ ρ κ) := by
    rw [connectionForLake, own]
  simp only [CDCClient.init, skips, warms, given, Bool.false_eq_true, if_false, if_true, ends_bind,
    ends_pure]
  exact ends_mono ends_prewarm (fun _ _ warm => ⟨trivial,warm⟩) (fun _ _ cold => cold)

def Said (w w' : Wire κ ρ) (statements : List (List Char)) : Prop :=
  ∃ more, w'.sent = w.sent ++ more ∧ more.map Sent.sql = statements ∧
    ∀ s ∈ more, ∃ r, s.answer = .ok r

def Broke (w w' : Wire κ ρ) (statements : List (List Char)) : Prop :=
  ∃ more, w'.sent = w.sent ++ more ∧ more.map Sent.sql <+: statements

/-- The program sends these statements one after the other, or breaks off. -/
def Issues {α : Type} (p : Speaks κ ρ α) (statements : List (List Char)) : Prop :=
  ∀ w, Ends p w (fun _ w' => Said w w' statements) (fun _ w' => Broke w w' statements)

theorem issues_pure {α : Type} (a : α) : Issues (pure a : Speaks κ ρ α) [] :=
  fun _ => ⟨[],(List.append_nil _).symm,rfl,by simp⟩

theorem issues_throw {α : Type} (e : Exc) (statements : List (List Char)) :
    Issues (throw e : Speaks κ ρ α) statements :=
  fun _ => ⟨[],(List.append_nil _).symm,List.nil_prefix⟩

theorem issues_bind {α β : Type} {p : Speaks κ ρ α} {f : α → Speaks κ ρ β}
    {first second : List (List Char)} (hp : Issues p first) (hf : ∀ a, Issues (f a) second) :
    Issues (p >>= f) (first ++ second) := by
  intro w
  rw [ends_bind]
  refine ends_mono (hp w) ?_ ?_
  · rintro a u ⟨more,sent,same,ok⟩
    refine ends_mono (hf a u) ?_ ?_
    · rintro b v ⟨more',sent',same',ok'⟩
      refine ⟨more ++ more',by rw [sent', sent, List.append_assoc],?_,?_⟩
      · rw [List.map_append, same, same']
      · intro s member
        rcases List.mem_append.mp member with here | there
        · exact ok s here
        · exact ok' s there
    · rintro e v ⟨more',sent',some_⟩
      refine ⟨more ++ more',by rw [sent', sent, List.append_assoc],?_⟩
      rw [List.map_append, same]
      exact (List.prefix_append_right_inj _).mpr some_
  · rintro e u ⟨more,sent,some_⟩
    exact ⟨more,sent,some_.trans (List.prefix_append _ _)⟩

theorem issues_execute : Issues (execute peer handle sql : Speaks κ ρ ρ) [sql] := by
  intro w
  refine ends_mono ends_execute ?_ ?_
  · rintro r u ⟨added,_⟩
    exact ⟨_,added,rfl,by simp⟩
  · rintro e u ⟨added,_⟩
    exact ⟨_,added,List.prefix_rfl⟩

theorem issues_connectionForLake : Issues (connectionForLake lake : Speaks κ ρ κ) [] := by
  intro w
  refine ends_mono ends_connectionForLake ?_ ?_
  · rintro k u ⟨_,sent,_⟩
    exact ⟨[],by rw [sent, List.append_nil],rfl,by simp⟩
  · rintro e u ⟨_,sent,_⟩
    exact ⟨[],by rw [sent, List.append_nil],List.nil_prefix⟩

theorem issues_executeOnLake : Issues (executeOnLake peer lake sql) [sql] := by
  unfold executeOnLake
  split
  · exact issues_bind issues_execute fun _ => issues_pure ()
  · exact issues_bind issues_connectionForLake fun _ => issues_bind issues_execute fun _ => issues_pure ()

theorem issues_prewarm : Issues (prewarm peer k) [versionSql] := by
  intro w
  refine ends_mono ends_prewarm ?_ ?_
  · rintro version u ⟨r,added⟩
    exact ⟨_,added,rfl,by simp⟩
  · rintro e u ⟨answer,added⟩
    exact ⟨_,added,List.prefix_rfl⟩

def ClientOptions.statements (o : ClientOptions) : List (List Char) :=
  (if o.installExtension then
    if isExtensionIdentifier o.extensionRepository then
      [installSql o.extensionRepository,loadSql]
    else []
  else []) ++ if o.prewarmConnection then [versionSql] else []

/-- Whatever lake a client is built on, it sends `INSTALL`, `LOAD` and the prewarm query, as far
    as they are asked for, each after the one before was answered; none for a repository that
    is not an identifier. -/
theorem issues_init (o : ClientOptions) : Issues (CDCClient.init peer lake o) o.statements := by
  have install : Issues (if o.installExtension then
      installAndLoadExtension peer lake o.extensionRepository else pure ())
      (if o.installExtension then
        if isExtensionIdentifier o.extensionRepository then
          [installSql o.extensionRepository,loadSql]
        else []
      else []) := by
    split
    · unfold installAndLoadExtension
      split
      · exact issues_bind (issues_pure ()) fun _ => issues_bind issues_executeOnLake fun _ =>
          issues_executeOnLake
      · exact fun w => issues_throw _ _ w
    · exact issues_pure ()
  have warm : Issues (if o.prewarmConnection then do
      let connection ← connectionForLake lake
      let _ ← prewarm peer connection
    else pure () : Speaks κ ρ Unit) (if o.prewarmConnection then [versionSql] else []) := by
    split
    · exact issues_bind issues_connectionForLake fun _ => issues_bind issues_prewarm fun _ => issues_pure ()
    · exact issues_pure ()
  have both := issues_bind install fun _ => issues_bind warm fun _ =>
    issues_pure (⟨lake,o.catalogFor lake⟩ : CDCClient κ)
  rw [List.append_nil] at both
  exact both

@[simp] theorem ends_query {send : List Char → Speaks κ ρ ρ} {next : Except Exc ρ → Requests ρ}
    {ok : Unit → Wire κ ρ → Prop} {err : Exc → Wire κ ρ → Prop} :
    Ends ((Requests.query sql next).run send) w ok err ↔
      Ends (send sql) w (fun r w' => Ends ((next (.ok r)).run send) w' ok err)
        (fun e w' => Ends ((next (.error e)).run send) w' ok err) := by
  simp only [Ends, Requests.run, EStateM.run]
  cases send sql w <;> rfl

theorem keeps_requests {inv : Wire κ ρ → Prop} {send : List Char → Speaks κ ρ ρ}
    (each : ∀ sql, Keeps inv (send sql)) (p : Requests ρ) : Keeps inv (p.run send) := by
  induction p with
  | ends raised =>
    cases raised with
    | none => exact leads_pure ()
    | some e => exact keeps_throw e
  | query sql next ih =>
    intro w h
    rw [ends_query]
    exact ends_mono (each sql w h) (fun r w' hw => ih (.ok r) w' hw) (fun e w' hw => ih (.error e) w' hw)

end

end CdcClients
