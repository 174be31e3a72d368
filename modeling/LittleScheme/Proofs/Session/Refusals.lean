import LittleScheme.Proofs.Session.Renaming
import LittleScheme.Proofs.Store.Reading

/-!
# Refused lines leave no trace

A line that cannot be read may leave values behind: the data that were complete when the reader gave
up have been made by then.  They are new cells, nothing that was in the store refers to them, and
nothing of what was there has changed.  So a session without the line is found in the session with
it, and it stays so from line to line.
-/

namespace LittleScheme

/-! ## Reading -/

/-- The source cannot be read. -/
def Datum.Refused (limit : Nat) (source : String) : Prop :=
  ∃ fault finished, Datum.read limit source = .error (fault, finished)

theorem Datum.refused_iff {limit : Nat} {source : String} :
    Datum.Refused limit source ↔ (Datum.read limit source).toOption = none := by
  rw [Datum.Refused]
  cases Datum.read limit source with
  | ok d => simp [Except.toOption]
  | error failure => simpa [Except.toOption] using ⟨failure.1, failure.2, rfl⟩

instance (limit : Nat) (source : String) : Decidable (Datum.Refused limit source) :=
  decidable_of_iff' _ Datum.refused_iff

namespace Store

/-- Make one cell after the other. -/
def registerAll (s : Store) (nodes : List Node) : Store := nodes.foldl register s

theorem registerAll_append (s : Store) (nodes nodes' : List Node) :
    s.registerAll (nodes ++ nodes') = (s.registerAll nodes).registerAll nodes' :=
  List.foldl_append

theorem extended_registerAll (s : Store) (nodes : List Node) :
    s.Extended (s.registerAll nodes) := by
  induction nodes generalizing s with
  | nil => exact .refl s
  | cons node nodes ih => exact (s.extended_register node).trans (ih _)

end Store

theorem exists_registered_build (d : Datum) (s : Store) :
    ∃ r nodes, build d s = .ok r (s.registerAll nodes) := by
  induction d generalizing s with
  | nil => exact ⟨.nil, [], rfl⟩
  | leaf a => exact ⟨.cell s.size, [a.node], rfl⟩
  | pair first second ihFirst ihSecond =>
    obtain ⟨r, nodes, made⟩ := ihFirst s
    obtain ⟨r', nodes', made'⟩ := ihSecond (s.registerAll nodes)
    refine ⟨.cell ((s.registerAll nodes).registerAll nodes').size,
      nodes ++ nodes' ++ [.pair r r'], ?_⟩
    rw [build, StoreM.bind_ok made, StoreM.bind_ok made', Store.registerAll_append,
      Store.registerAll_append]
    rfl

theorem exists_registered_buildAll (ds : List Datum) (s : Store) :
    ∃ rs nodes, buildAll ds s = .ok rs (s.registerAll nodes) := by
  induction ds generalizing s with
  | nil => exact ⟨[], [], rfl⟩
  | cons d ds ih =>
    obtain ⟨r, nodes, made⟩ := exists_registered_build d s
    obtain ⟨rs, nodes', made'⟩ := ih (s.registerAll nodes)
    refine ⟨r :: rs, nodes ++ nodes', ?_⟩
    rw [buildAll, StoreM.bind_ok made, StoreM.bind_ok made', Store.registerAll_append]
    rfl

/-- All that happens to the store when a source is refused is that cells are made. -/
theorem Datum.Refused.readValue {limit : Nat} {source : String}
    (refused : Datum.Refused limit source) (s : Store) :
    ∃ fault nodes,
      LittleScheme.readValue limit source s = .error fault (s.registerAll nodes) := by
  obtain ⟨fault, finished, read⟩ := refused
  obtain ⟨rs, nodes, made⟩ := exists_registered_buildAll finished s
  have discarded : (discard (buildAll finished) : StoreM PUnit) s =
      .ok () (s.registerAll nodes) := by
    rw [StoreM.discard_eq, StoreM.bind_ok made]
    rfl
  refine ⟨fault, nodes, ?_⟩
  rw [readValue_of_error read, abandon, StoreM.bind_ok discarded]
  rfl

namespace Session

variable {a b : Session} {line : String}

/-- What a refused line leaves behind has the contents that the reader has left. -/
theorem alike_of_refused (refused : Datum.Refused b.limit line) :
    ∃ nodes, StoreM.storeAfter (readValue b.limit line) b.store = b.store.registerAll nodes ∧
      Alike { b with store := b.store.registerAll nodes } (left (execute line b)) := by
  obtain ⟨fault, nodes, read⟩ := refused.readValue b.store
  have whole : b.wholeLine line b.store = .error fault (b.store.registerAll nodes) :=
    StoreM.bind_error read _
  have alike := (ends_run b line).alike.trans (alike_execute b line)
  rw [StoreM.storeAfter, whole] at alike
  exact ⟨nodes, by rw [StoreM.storeAfter, read], alike⟩

/-- What was in the store before a refused line is there after it, and unchanged. -/
theorem node?_of_refused (refused : Datum.Refused b.limit line) {loc : Loc}
    (exist : loc < b.store.size) :
    (left (execute line b)).store.node? (.cell loc) = b.store.node? (.cell loc) := by
  obtain ⟨nodes, -, alike⟩ := alike_of_refused refused
  rw [← congrFun alike.store.node? (.cell loc)]
  exact (b.store.extended_registerAll nodes).node?_eq exist

/-- A session is found in another one in which a refused line has been run. -/
theorem Renamed.refuse {f : Loc → Loc} (renamed : a.Renamed f b)
    (refused : Datum.Refused b.limit line) :
    ∃ f', a.Renamed f' (left (Session.execute line b)) := by
  obtain ⟨nodes, -, alike⟩ := alike_of_refused refused
  have extended := b.store.extended_registerAll nodes
  have found := renamed.store.add extended.size_le fun loc exist => extended.node?_eq exist
  refine ⟨_, Renamed.of_alike (b := { b with store := b.store.registerAll nodes })
    ⟨found, ?_, renamed.exist, renamed.limit⟩ (.refl a) alike⟩
  rw [Store.shift, if_pos renamed.exist]
  exact renamed.globals

/-! ## Abridged sessions -/

/-- The session `a` is found in `b`, both have the same recursion limit, and what has to be is
registered in both. -/
structure Abridges (limit : Nat) (a b : Session) : Prop where
  found : ∃ f, a.Renamed f b
  limit : a.limit = limit
  registered : registration.Holds a
  registered' : registration.Holds b

theorem abridges_start (collectOnError : Bool) (limit : Nat) :
    Abridges limit (start collectOnError limit) (start collectOnError limit) where
  found := ⟨id, renamed_start collectOnError limit⟩
  limit := by
    obtain ⟨store, ended⟩ := Discipline.Lawful.makeGlobals_ok {}
    rw [start, ended]
  registered := registration_holds_start collectOnError limit
  registered' := registration_holds_start collectOnError limit

namespace Abridges

variable {limit : Nat} (abridges : Abridges limit a b)
include abridges

/-- The same line is run in both sessions. -/
theorem keep (line : String) :
    Abridges limit (a.after (.execute line)) (b.after (.execute line)) where
  found := by
    obtain ⟨f, renamed⟩ := abridges.found
    exact ⟨f, alike_left (renamed.execute line)⟩
  limit := by
    have alike := (ends_run a line).alike.trans (alike_execute a line)
    exact alike.limit.symm.trans abridges.limit
  registered := lawful_registration.holds_after collects_registration abridges.registered _
  registered' := lawful_registration.holds_after collects_registration abridges.registered' _

/-- A refused line is run in one of the sessions only. -/
theorem strike (refused : Datum.Refused limit line) :
    Abridges limit a (b.after (.execute line)) :=
  { abridges with
    found := by
      obtain ⟨f, renamed⟩ := abridges.found
      refine renamed.refuse ?_
      rwa [renamed.limit, abridges.limit]
    registered' := lawful_registration.holds_after collects_registration abridges.registered' _ }

theorem globalNames : b.globalNames = a.globalNames := by
  obtain ⟨f, renamed⟩ := abridges.found
  exact renamed.globalNames.symm

theorem outcome (line : String) :
    Session.outcome (execute line b) = Session.outcome (execute line a) := by
  obtain ⟨f, renamed⟩ := abridges.found
  exact (outcome_eq (renamed.execute line)).symm

theorem live? (line : String) :
    (entry (execute line b)).live? = (entry (execute line a)).live? := by
  obtain ⟨f, renamed⟩ := abridges.found
  exact (renamed.live?_entry abridges.registered abridges.registered' line).symm

end Abridges

/-! ## Scripts -/

/-- The session after the lines of a script, whether they are struck or not. -/
def afterScript (session : Session) (script : List (String × Bool)) : Session :=
  session.afterAll (script.map fun entry => .execute entry.1)

/-- The lines of a script that are not struck. -/
def keptLines (script : List (String × Bool)) : List (String × Bool) :=
  script.filter fun entry => !entry.2

theorem Abridges.script {limit : Nat} (abridges : Abridges limit a b)
    {script : List (String × Bool)}
    (refused : ∀ entry ∈ script, entry.2 = true → Datum.Refused limit entry.1) :
    Abridges limit (a.afterScript (keptLines script)) (b.afterScript script) := by
  induction script generalizing a b with
  | nil => exact abridges
  | cons entry script ih =>
    obtain ⟨line, struck⟩ := entry
    have later := fun entry member => refused entry (List.mem_cons_of_mem _ member)
    cases struck with
    | true => exact ih (abridges.strike (refused _ (by simp) rfl)) later
    | false => exact ih (abridges.keep line) later

end Session

/-- **Refused lines leave no trace.**  In a session some lines may be struck, all of which are
refused by the reader.  The session with them and the session without them have the same names in
the global frame, every further line comes to the same outcome in both, and if it succeeds, as many
values are registered after it.  While a refused line runs, cells are made one after the other, and
at no moment is anything changed that was there before; nor is it after the line, when the session
may have collected. -/
theorem refused_lines_untraced (collectOnError : Bool) (limit : Nat)
    (script : List (String × Bool))
    (refused : ∀ entry ∈ script, entry.2 = true → Datum.Refused limit entry.1) :
    let session := (Session.start collectOnError limit).afterScript script
    let session' := (Session.start collectOnError limit).afterScript (Session.keptLines script)
    session.globalNames = session'.globalNames ∧
      (∀ line, Session.outcome (Session.execute line session) =
          Session.outcome (Session.execute line session') ∧
        (Session.entry (Session.execute line session)).live? =
          (Session.entry (Session.execute line session')).live?) ∧
      ∀ line, Datum.Refused limit line →
        (∃ nodes, StoreM.storeAfter (readValue limit line) session.store =
            session.store.registerAll nodes ∧
          ∀ moment, session.store.Extended (session.store.registerAll (nodes.take moment))) ∧
        ∀ loc < session.store.size,
          (Session.left (Session.execute line session)).store.node? (.cell loc) =
            session.store.node? (.cell loc) := by
  intro session session'
  have abridges := (Session.abridges_start collectOnError limit).script refused
  have sameLimit : session.limit = limit := by
    obtain ⟨f, renamed⟩ := abridges.found
    exact renamed.limit.trans abridges.limit
  refine ⟨abridges.globalNames, fun line => ⟨abridges.outcome line, abridges.live? line⟩, ?_⟩
  intro line refusedLine
  rw [← sameLimit] at refusedLine ⊢
  obtain ⟨nodes, read, -⟩ := Session.alike_of_refused refusedLine
  refine ⟨⟨nodes, read, fun moment => session.store.extended_registerAll _⟩, ?_⟩
  exact fun loc exist => Session.node?_of_refused refusedLine exist

/-- A list that is never closed leaves what it began with behind, and a line with one bracket too
many leaves an assignment that is not run. -/
theorem refused_lines_untraced_brackets :
    let script := [("(define x '(1 2))", false), ("(set! x (3 4)", true), ("(set! x 5))", true)]
    let session := (Session.start true 1000).afterScript script
    let session' := (Session.start true 1000).afterScript (Session.keptLines script)
    (∀ entry ∈ script, entry.2 = true → Datum.Refused 1000 entry.1) ∧
      Session.keptLines script = [("(define x '(1 2))", false)] ∧
      session.globalNames = session'.globalNames ∧
      Session.outcome (Session.execute "x" session) =
        Session.outcome (Session.execute "x" session') ∧
      (Session.entry (Session.execute "x" session)).live? =
        (Session.entry (Session.execute "x" session')).live? := by
  intro script session session'
  have refused : ∀ entry ∈ script, entry.2 = true → Datum.Refused 1000 entry.1 := by
    decide +kernel
  obtain ⟨names, lines, -⟩ := refused_lines_untraced true 1000 script refused
  exact ⟨refused, rfl, names, lines "x"⟩

end LittleScheme
