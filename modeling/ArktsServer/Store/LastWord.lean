import ArktsServer.Store.BatchOrder
import ArktsServer.Store.ParsedBatches

/-
  What a store holds of a document after any run of refreshes
  and activations, failed ones included: what the last
  accepted call that says anything of it made of it.

  Key definitions include:
    * `StoreView.verdict`
    * `SymbolStore.acceptedCalls`
    * `tablesOf`, `newerCalls`

  Correctness is proven by:
    * `memory_activated`, `sqlite_activated`
    * `callRun_lastWord`
    * `workspaceRun_refines`
-/

----------
-- Verdicts
----------

namespace ArktsServer

open Assignments Chunking Store

/- The calls of a run that are not answered with an error. -/
def SymbolStore.acceptedCalls
    {State : Type}
    (unicode : Unicode)
    (store : SymbolStore State)
    (state : State) : List IndexCall → List IndexCall
| [] => []
| call :: later =>
    let answer := store.call unicode state call
    let accepted := acceptedCalls unicode store answer.2 later
    if answer.1.isOk then call :: accepted else accepted

namespace Store

/- Some version of the document cannot be parsed. -/
def unparsed
    (unicode : Unicode)
    (documents : List Document)
    (uri : String) : Bool :=
  documents.any fun document =>
    document.uri = uri &&
      (parseDocumentSymbols unicode document).isNone

section Verdicts

variable {State Content : Type}
variable {store : SymbolStore State}
variable (view : StoreView store Content)
variable (unicode : Unicode)

/- What a catalog leaves of a document. -/
def StoreView.activated
    (documents : List DocumentSymbols)
    (rejectedUris : List String)
    (uri : String) : Content × Bool :=
  (((documents.reverse.find? (·.uri = uri)).map
      view.stored).getD view.absent,
    decide (uri ∈ rejectedUris))

/-
  What a call makes of a document, unless it says nothing of
  it.  A refresh rejects it for any version that cannot be
  parsed, takes its last version otherwise, and removes it
  only if it brings no version.
-/
def StoreView.verdict
    (uri : String) : IndexCall → Option (Content × Bool)
| .refresh _ documents removedUris =>
    if unparsed unicode documents uri then
      some (view.absent, true)
    else
      match lastVersion documents uri with
      | some document =>
          (parseDocumentSymbols unicode document).map
            fun symbols => (view.stored symbols, false)
      | none =>
          if uri ∈ removedUris then
            some (view.absent, false)
          else
            none
| .activateCatalog _ documents rejectedUris =>
    some (view.activated documents rejectedUris uri)

variable {documents : List Document}
variable {uri : String}

theorem mem_unparsed :
    uri
        ∈ (documents.filter fun document =>
          (parseDocumentSymbols unicode
            document).isNone).map (·.uri) ↔
      unparsed unicode documents uri = true := by
  unfold unparsed
  rw [List.mem_map, List.any_eq_true]
  refine exists_congr fun document => ?_
  simp only [List.mem_filter, Bool.and_eq_true, decide_eq_true_eq]
  tauto

/- Without such a version, the last one can be parsed. -/
theorem exists_symbols
    {unicode : Unicode}
    {last : Document}
    (hParsed : ¬ unparsed unicode documents uri = true)
    (hVersion : lastVersion documents uri = some last) :
    ∃ symbols,
      parseDocumentSymbols unicode last = some symbols := by
  rw [← Option.ne_none_iff_exists']
  intro hNone
  refine hParsed ((mem_unparsed unicode).mp ?_)
  refine List.mem_map.mpr ⟨last, ?_, ?_⟩
  · refine List.mem_filter.mpr ⟨?_, ?_⟩
    · exact
        List.mem_reverse.mp (List.mem_of_find?_eq_some hVersion)
    · rw [hNone]
      rfl
  · simpa using List.find?_some hVersion

theorem lastWrite?_late :
    lastWrite?
        ((documents.map (documentWrite view unicode)).filter
          fun write => write.2.2) uri =
      if unparsed unicode documents uri then
        some (view.absent, true)
      else
        none := by
  rw [← rejections_writes]
  refine lastWrite?_constant.trans ?_
  simp only [mem_sortedUnique, mem_unparsed]

/- The last version is the last early write. -/
theorem lastWrite?_early
    (hParsed : ¬ unparsed unicode documents uri = true) :
    lastWrite?
        ((documents.map (documentWrite view unicode)).filter
          fun write => !write.2.2) uri =
      (lastVersion documents uri).map fun document =>
        (documentWrite view unicode document).2 := by
  have hLast := lastWrite?_documents view unicode documents uri
  cases hVersion : lastVersion documents uri with
  | none =>
    rw [hVersion, Option.map_none,
      lastWrite?_eq_none_iff] at hLast
    exact
      lastWrite?_eq_none_iff.mpr fun write hWrite =>
        hLast write (List.mem_filter.mp hWrite).1
  | some last =>
    rw [hVersion, Option.map_some] at hLast
    rcases exists_symbols hParsed hVersion with
      ⟨symbols, hParse⟩
    refine
      @lastWrite?_filter _ _ _ (fun value => !value.2) _ _ _
        hLast ?_
    unfold documentWrite
    rw [hParse]
    rfl

variable {view unicode}
variable {state : State}

theorem entry_verdict
    (hView : view.Lawful)
    {generation : Nat}
    {removedUris : List String}
    (hOk :
      (store.call unicode state
        (.refresh generation documents
          removedUris)).1.isOk = true) :
    view.entry
        (store.call unicode state
          (.refresh generation documents removedUris)).2
        uri =
      (view.verdict unicode uri
          (.refresh generation documents removedUris)).getD
        (view.entry state uri) := by
  have hRemoved :
      lastWrite? ((sortedUnique removedUris).map view.removal)
          uri =
        if uri ∈ removedUris then some (view.absent, false)
        else none := by
    refine lastWrite?_constant.trans ?_
    simp only [mem_sortedUnique]
  rw [entry_refresh hView hOk, assign_apply, assign_apply,
    hRemoved, phased, lastWrite?_append, lastWrite?_late]
  by_cases hParsed : unparsed unicode documents uri = true
  · simp only [StoreView.verdict, if_pos hParsed,
      Option.some_or, Option.getD_some]
  · rw [lastWrite?_early view unicode hParsed]
    simp only [StoreView.verdict, if_neg hParsed, Option.none_or]
    cases hVersion : lastVersion documents uri with
    | none => split <;> rfl
    | some last =>
      rcases exists_symbols hParsed hVersion with
        ⟨symbols, hParse⟩
      simp [documentWrite, hParse]

end Verdicts

----------
-- Catalogs
----------

/- What a list of documents writes, the last one deciding. -/
theorem lastWrite?_stored
    {Content : Type}
    (stored : DocumentSymbols → Content)
    (documents : List DocumentSymbols)
    (uri : String) :
    lastWrite?
        (documents.map fun document =>
          (document.uri, stored document)) uri =
      (documents.reverse.find? (·.uri = uri)).map stored := by
  unfold lastWrite?
  rw [← List.map_reverse, List.find?_map, Option.map_map]
  rfl

theorem memory_activated
    {store : MemoryStore}
    {batch : FullCatalogBatch}
    {receipt : CommitReceipt}
    (hAnswer :
      (store.replaceAll batch).1 = Except.ok receipt) :
    memoryView.entry (store.replaceAll batch).2 =
      memoryView.activated batch.documents
        batch.rejectedUris := by
  rcases commit_ok hAnswer with ⟨next, hNext, _, hAfter⟩
  rcases bind_eq_ok.mp hNext with ⟨_, _, hNext⟩
  rcases bind_eq_ok.mp hNext with ⟨documents, hLoop, hNext⟩
  injection hNext with hNext
  subst hNext
  have hDocuments :
      documents.get? =
        assign DocumentMap.empty.get?
          (batch.documents.map fun document =>
            (document.uri, some document)) := by
    refine foldlM_assign DocumentMap.get? _ ?_ hLoop
    intro documents document next hInsert
    rcases bind_eq_ok.mp hInsert with ⟨_, _, hInsert⟩
    injection hInsert with hInsert
    rw [← hInsert]
    exact get?_insert documents document
  funext uri
  unfold MemoryStore.replaceAll
  rw [hAfter]
  refine Prod.ext ?_ ?_
  · refine (congrFun hDocuments uri).trans ?_
    rw [assign_apply, lastWrite?_stored]
    rfl
  · exact decide_eq_decide.mpr OrderedSet.mem_ofList

/- A catalog of documents with URIs of their own. -/
theorem rowsOf_documentsTables
    (unicode : Unicode)
    (generation : Nat)
    {documents : List DocumentSymbols}
    (hNodup : (documents.map (·.uri)).Nodup) :
    rowsOf (documentsTables unicode generation documents) =
      assign (fun _ => CatalogTables.empty)
        (documents.map fun document =>
          (document.uri, documentTables unicode 0 document)) := by
  induction documents using List.reverseRecOn with
  | nil => rfl
  | append_singleton documents document ih =>
    rw [List.map_append, List.nodup_append] at hNodup
    have hForeign :
        ∀ other ∈ documents, other.uri ≠ document.uri :=
      fun other hOther =>
        hNodup.2.2 other.uri (List.mem_map_of_mem hOther)
          document.uri (List.mem_singleton_self _)
    rw [documentsTables_append, documentsTables_singleton,
      List.map_append, assign_append, ← ih hNodup.1]
    funext uri
    rw [rowsOf_append, List.map_singleton, assign_cons,
      assign_nil]
    by_cases hSame : uri = document.uri
    · subst hSame
      rw [Function.update_self, rowsOf_documentTables,
        rowsOf_lacks (lacks_documentsTables unicode hForeign),
        CatalogTables.empty_append]
    · rw [Function.update_of_ne hSame,
        rowsOf_lacks
          (lacks_documentTables unicode (Ne.symm hSame)),
        CatalogTables.append_empty]

theorem sqlite_activated
    (unicode : Unicode)
    {database : CatalogDatabase}
    {batch : FullCatalogBatch}
    {receipt : CommitReceipt}
    (hAnswer :
      ((sqliteStore unicode).replaceAll database batch).1 =
        Except.ok receipt) :
    (sqliteView unicode).entry
        ((sqliteStore unicode).replaceAll database batch).2 =
      (sqliteView unicode).activated batch.documents
        batch.rejectedUris := by
  rcases replaceAll_stages unicode (orRollback_ok hAnswer)
    with ⟨_, _, hNodup, _, hAfter, _⟩
  rw [entry_eq_databaseEntry]
  have hEntry :
      databaseEntry
          ((sqliteStore unicode).replaceAll database batch).2 =
        databaseEntry _ :=
    congrArg databaseEntry hAfter
  rw [hEntry]
  funext uri
  refine Prod.ext ?_ ?_
  · refine
      (congrFun
        (rowsOf_documentsTables unicode batch.generation
          hNodup) uri).trans ?_
    rw [assign_apply, lastWrite?_stored]
    rfl
  · refine decide_eq_decide.mpr ?_
    rw [mem_insertRowsIgnoring]
    simp

----------
-- Runs
----------

section Runs

variable {State Content : Type}
variable {store : SymbolStore State}
variable {view : StoreView store Content}

/- A full catalog leaves what it brings and no more. -/
def StoreView.Activates (view : StoreView store Content) : Prop :=
  ∀ state batch receipt,
    (store.replaceAll state batch).1 = Except.ok receipt →
    view.entry (store.replaceAll state batch).2 =
      view.activated batch.documents batch.rejectedUris

variable {unicode : Unicode}
variable {state : State}
variable {call : IndexCall}

theorem entry_call
    (hView : view.Lawful)
    (hActivates : view.Activates)
    {report : RefreshReport}
    (hAnswer :
      (store.call unicode state call).1 = Except.ok report)
    (uri : String) :
    view.entry (store.call unicode state call).2 uri =
      (view.verdict unicode uri call).getD
        (view.entry state uri) := by
  cases call with
  | refresh generation documents removedUris =>
    exact entry_verdict hView (by rw [hAnswer]; rfl)
  | activateCatalog generation documents rejectedUris =>
    rcases SymbolStore.map_eq_ok hAnswer with
      ⟨receipt, hReceipt, _⟩
    exact congrFun (hActivates state _ receipt hReceipt) uri

theorem call_error
    (hLawful : store.Lawful)
    {error : StoreError}
    (hAnswer :
      (store.call unicode state call).1 = Except.error error) :
    (store.call unicode state call).2 = state := by
  cases call with
  | refresh generation documents removedUris =>
    exact
      hLawful.applyError state _ error
        (SymbolStore.map_eq_error hAnswer)
  | activateCatalog generation documents rejectedUris =>
    exact
      hLawful.replaceError state _ error
        (SymbolStore.map_eq_error hAnswer)

theorem entry_run
    (hLawful : store.Lawful)
    (hView : view.Lawful)
    (hActivates : view.Activates)
    (calls : List IndexCall)
    (state : State)
    (uri : String) :
    view.entry (store.callRun unicode state calls) uri =
      ((store.acceptedCalls unicode state
          calls).reverse.findSome?
        (view.verdict unicode uri)).getD
        (view.entry state uri) := by
  induction calls generalizing state with
  | nil => rfl
  | cons call later ih =>
    let next := (store.call unicode state call).2
    let accepted := store.acceptedCalls unicode next later
    have hCons :
        store.acceptedCalls unicode state (call :: later) =
          if (store.call unicode state call).1.isOk then
            call :: accepted
          else accepted := rfl
    refine (ih next).trans ?_
    rw [hCons]
    cases hAnswer : (store.call unicode state call).1 with
    | error error =>
      have hStays : view.entry next = view.entry state :=
        congrArg view.entry (call_error hLawful hAnswer)
      rw [hStays]
      rfl
    | ok report =>
      have hAccepted :
          (Except.ok report : Except StoreError _).isOk = true :=
        rfl
      have hNext :
          view.entry next uri =
            (view.verdict unicode uri call).getD
              (view.entry state uri) :=
        entry_call hView hActivates hAnswer uri
      rw [hNext, if_pos hAccepted, List.reverse_cons,
        List.findSome?_append]
      cases accepted.reverse.findSome?
          (view.verdict unicode uri) with
      | some content => rfl
      | none => simp

end Runs

/-
  From any state of either store and for any run of calls, a
  document is held as the last accepted call that says
  anything of it made of it.
-/
theorem callRun_lastWord
    (unicode : Unicode)
    (calls : List IndexCall)
    (uri : String) :
    (∀ store : MemoryStore,
      memoryView.entry
          (memoryStore.callRun unicode store calls) uri =
        ((memoryStore.acceptedCalls unicode store
            calls).reverse.findSome?
          (memoryView.verdict unicode uri)).getD
          (memoryView.entry store uri)) ∧
      ∀ database : CatalogDatabase,
        (sqliteView unicode).entry
            ((sqliteStore unicode).callRun unicode database
              calls) uri =
          (((sqliteStore unicode).acceptedCalls unicode
              database calls).reverse.findSome?
            ((sqliteView unicode).verdict unicode uri)).getD
            ((sqliteView unicode).entry database uri) := by
  constructor
  · intro store
    exact
      entry_run memoryStore_lawful memoryView_lawful
        (fun _ _ _ hAnswer => memory_activated hAnswer)
        calls store uri
  · intro database
    exact
      entry_run (sqliteStore_lawful unicode)
        (sqliteView_lawful unicode)
        (fun _ _ _ hAnswer => sqlite_activated unicode hAnswer)
        calls database uri

----------
-- Both Stores
----------

section Agreement

variable (unicode : Unicode)

/- The rows that a document in memory has in the database. -/
def tablesOf
    (content : Option DocumentSymbols × Bool) :
    CatalogTables × Bool :=
  ((content.1.map (documentTables unicode 0)).getD
    CatalogTables.empty, content.2)

theorem verdict_tablesOf
    (uri : String)
    (call : IndexCall) :
    (sqliteView unicode).verdict unicode uri call =
      (memoryView.verdict unicode uri call).map
        (tablesOf unicode) := by
  cases call with
  | refresh generation documents removedUris =>
    simp only [StoreView.verdict]
    split
    · rfl
    · split
      · rw [Option.map_map]
        rfl
      · split <;> rfl
  | activateCatalog generation documents rejectedUris =>
    simp only [StoreView.verdict, StoreView.activated]
    cases documents.reverse.find? (·.uri = uri) <;> rfl

/- The same rows, where the stores accept the same calls. -/
theorem callRun_refines
    {calls : List IndexCall}
    (hSame :
      (sqliteStore unicode).acceptedCalls unicode
          CatalogDatabase.new calls =
        memoryStore.acceptedCalls unicode {} calls)
    (uri : String) :
    (sqliteView unicode).entry
        ((sqliteStore unicode).callRun unicode
          CatalogDatabase.new calls) uri =
      tablesOf unicode
        (memoryView.entry
          (memoryStore.callRun unicode {} calls) uri) := by
  have hVerdicts :
      (sqliteView unicode).verdict unicode uri =
        Option.map (tablesOf unicode) ∘
          memoryView.verdict unicode uri :=
    funext (verdict_tablesOf unicode uri)
  rw [entry_run (sqliteStore_lawful unicode)
      (sqliteView_lawful unicode)
      (fun _ _ _ hAnswer => sqlite_activated unicode hAnswer),
    entry_run memoryStore_lawful memoryView_lawful
      (fun _ _ _ hAnswer => memory_activated hAnswer),
    hSame, hVerdicts, ← List.map_findSome?]
  cases (memoryStore.acceptedCalls unicode {}
    calls).reverse.findSome?
      (memoryView.verdict unicode uri) <;> rfl

end Agreement

end Store

----------
-- Workspace Runs
----------

/- The generation that a call is to commit. -/
def IndexCall.generation : IndexCall → Nat
| .refresh generation _ _ => generation
| .activateCatalog generation _ _ => generation

/-
  The calls of a workspace: files of less than 4 GiB, or what
  the parser made of such files, each under its own URI, and
  a generation that SQLite can hold.
-/
def IndexCall.OfFiles (unicode : Unicode) : IndexCall → Prop
| .refresh generation documents _ =>
    generation < 2 ^ 63 ∧
      ∀ document ∈ documents,
        byteLengthOf document.text < 2 ^ 32
| .activateCatalog generation documents _ =>
    generation < 2 ^ 63 ∧
      (documents.map (·.uri)).Nodup ∧
      ∀ symbols ∈ documents, Parsed unicode symbols

/- The calls with a generation above all earlier ones. -/
def newerCalls (committed : Nat) : List IndexCall → List IndexCall
| [] => []
| call :: later =>
    if committed < call.generation then
      call :: newerCalls call.generation later
    else
      newerCalls committed later

namespace Store

section WorkspaceRuns

variable {unicode : Unicode}
variable {call : IndexCall}

theorem memory_isOk
    (store : MemoryStore)
    (hCall : call.OfFiles unicode) :
    (memoryStore.call unicode store call).1.isOk = true ↔
      store.committedGeneration < call.generation := by
  cases call with
  | refresh generation documents removedUris =>
    refine SymbolStore.isOk_map.trans ?_
    have hParsed :=
      @parsed_refreshBatch unicode generation documents
        removedUris hCall.2
    exact
      (memory_applyBatch_iff store _).trans
        (and_iff_left (othersPass_of_parsed hParsed))
  | activateCatalog generation documents rejectedUris =>
    refine SymbolStore.isOk_map.trans ?_
    exact
      (memory_replaceAll_iff store _).trans
        (and_iff_left (othersPass_of_parsed hCall.2.2))

theorem sqlite_isOk
    (database : CatalogDatabase)
    (hCall : call.OfFiles unicode) :
    ((sqliteStore unicode).call unicode database
        call).1.isOk = true ↔
      database.committedGeneration < call.generation := by
  cases call with
  | refresh generation documents removedUris =>
    refine SymbolStore.isOk_map.trans ?_
    refine orRollback_ok_iff.trans ?_
    refine (sqlite_applyBatch_iff unicode database _).trans ?_
    refine and_iff_left ⟨hCall.1, ?_⟩
    exact othersPass_of_parsed (parsed_refreshBatch hCall.2)
  | activateCatalog generation documents rejectedUris =>
    refine SymbolStore.isOk_map.trans ?_
    refine orRollback_ok_iff.trans ?_
    refine (sqlite_replaceAll_iff unicode database _).trans ?_
    refine and_iff_left ⟨hCall.1, hCall.2.1, ?_⟩
    exact othersPass_of_parsed hCall.2.2

variable {State : Type}
variable {store : SymbolStore State}

/- An accepted call commits its own generation. -/
theorem call_generation
    (hLawful : store.Lawful)
    {state : State}
    (hOk : (store.call unicode state call).1.isOk = true) :
    store.committedGeneration
        (store.call unicode state call).2 =
      call.generation := by
  cases call with
  | refresh generation documents removedUris =>
    rcases SymbolStore.isOk_map.mp hOk with
      ⟨receipt, hReceipt⟩
    exact (hLawful.applied state _ receipt hReceipt).moved
  | activateCatalog generation documents rejectedUris =>
    rcases SymbolStore.isOk_map.mp hOk with
      ⟨receipt, hReceipt⟩
    exact (hLawful.replaced state _ receipt hReceipt).moved

theorem acceptedCalls_newer
    (hLawful : store.Lawful)
    (calls : List IndexCall)
    (hNewer :
      ∀ state, ∀ call ∈ calls,
        (store.call unicode state call).1.isOk = true ↔
          store.committedGeneration state < call.generation)
    (state : State) :
    store.acceptedCalls unicode state calls =
      newerCalls (store.committedGeneration state) calls := by
  induction calls generalizing state with
  | nil => rfl
  | cons call later ih =>
    have hLater :=
      ih
        (fun state other hOther =>
          hNewer state other (List.mem_cons_of_mem _ hOther))
        (store.call unicode state call).2
    simp only [SymbolStore.acceptedCalls, newerCalls, hLater]
    have hCall := hNewer state call List.mem_cons_self
    by_cases hOk : (store.call unicode state call).1.isOk = true
    · rw [if_pos hOk, if_pos (hCall.mp hOk),
        call_generation hLawful hOk]
    · rw [if_neg hOk, if_neg (mt hCall.mpr hOk)]
      cases hAnswer : (store.call unicode state call).1 with
      | error error =>
        rw [call_error hLawful hAnswer]
      | ok report =>
        rw [hAnswer] at hOk
        exact absurd rfl hOk

end WorkspaceRuns

/-
  In any run of the workspace both stores accept the calls
  with a new highest generation and no others, and then the
  database holds exactly the rows of the documents in memory
  and rejects the same documents.
-/
theorem workspaceRun_refines
    (unicode : Unicode)
    (calls : List IndexCall)
    (hFiles : ∀ call ∈ calls, call.OfFiles unicode) :
    memoryStore.acceptedCalls unicode {} calls =
        newerCalls 0 calls ∧
      (sqliteStore unicode).acceptedCalls unicode
          CatalogDatabase.new calls =
        newerCalls 0 calls ∧
      ∀ uri,
        (sqliteView unicode).entry
            ((sqliteStore unicode).callRun unicode
              CatalogDatabase.new calls) uri =
          tablesOf unicode
            (memoryView.entry
              (memoryStore.callRun unicode {} calls) uri) := by
  have hMemory :=
    acceptedCalls_newer memoryStore_lawful calls
      (fun store call hCall =>
        memory_isOk store (hFiles call hCall)) {}
  have hSqlite :=
    acceptedCalls_newer (sqliteStore_lawful unicode) calls
      (fun database call hCall =>
        sqlite_isOk database (hFiles call hCall))
      CatalogDatabase.new
  exact
    ⟨hMemory, hSqlite,
      callRun_refines unicode (hSqlite.trans hMemory.symm)⟩

/- A card in the catalog, a page behind it, and a late call. -/
theorem workspaceRun_refines_sample :
    let card : Document :=
      ⟨"file:///a.ets", "export class Card {}".toList⟩
    let page : Document :=
      ⟨"file:///b.ets", "export class Page {}".toList⟩
    let calls : List IndexCall :=
      [.activateCatalog 2
          (parseDocumentSymbols Unicode.ascii card).toList [],
        .refresh 3 [page] [], .refresh 3 [] ["file:///a.ets"]]
    newerCalls 0 calls = calls.take 2 ∧
      (sqliteView Unicode.ascii).entry
          ((sqliteStore Unicode.ascii).callRun Unicode.ascii
            CatalogDatabase.new calls) "file:///a.ets" =
        tablesOf Unicode.ascii
          (memoryView.entry
            (memoryStore.callRun Unicode.ascii {} calls)
            "file:///a.ets") := by
  intro card page calls
  refine
    ⟨rfl, (workspaceRun_refines Unicode.ascii calls ?_).2.2 _⟩
  intro call hCall
  simp only [calls, List.mem_cons, List.not_mem_nil, or_false]
    at hCall
  rcases hCall with rfl | rfl | rfl
  · refine ⟨by decide, by decide +kernel, ?_⟩
    intro symbols hSymbols
    exact ⟨card, by decide, Option.mem_toList.mp hSymbols⟩
  · exact ⟨by decide, by decide⟩
  · exact ⟨by decide, by decide⟩

end Store

end ArktsServer
