import ArktsServer.Store.CatalogDocument

/-
  All catalog writers agree.  Whatever the batches, the
  stream chunks, the row chunks of oversized documents and
  the multi-row statements are, a build leaves the rows that
  inserting the documents one by one would leave.

  Main declarations:
    * `Storable`, `Wrote`
    * `insertBatch_iff`, `writeChunk_wrote`
    * `writeDocuments_wrote`, `writeDocuments_total`
    * `writeParts_wrote`, `writeParts_total`
    * `insertOneByOne_iff`
    * `writers_agree`
-/

----------
-- Batches
----------

namespace ArktsServer

namespace Store

open Chunking

/- What a document must satisfy to be written at all. -/
structure Storable (document : DocumentSymbols) : Prop where
  valid : validateReplacement document = Except.ok ()
  exports : ExportsDistinct document

theorem forM_eq_ok
    {α : Type}
    {check : α → Except StoreError Unit}
    {items : List α} :
    items.forM check = Except.ok () ↔
      ∀ item ∈ items, check item = Except.ok () := by
  induction items with
  | nil => simp [pure_eq_ok]
  | cons item items ih =>
    have hCons :
        (item :: items).forM check =
          (check item >>= fun _ => items.forM check) :=
      rfl
    rw [hCons, bind_eq_ok, List.forall_mem_cons, ← ih]
    constructor
    · rintro ⟨_, hItem, hItems⟩
      exact ⟨hItem, hItems⟩
    · rintro ⟨hItem, hItems⟩
      exact ⟨(), hItem, hItems⟩

section Batches

variable (unicode : Unicode)

variable {generation : Nat}
variable {tables tables' : CatalogTables}

/- One transaction adds the rows of its documents. -/
theorem insertBatch_iff
    {documents : List DocumentSymbols}
    (hNew : Insertable tables documents) :
    insertBatch unicode generation documents tables =
        Except.ok tables' ↔
      generation < 2 ^ 63 ∧
        (∀ document ∈ documents, ExportsDistinct document) ∧
        tables' =
          tables.append
            (documentsTables unicode generation
              documents) := by
  unfold insertBatch
  constructor
  · intro hInsert
    rcases bind_eq_ok.mp hInsert with ⟨sql, hSql, hInsert⟩
    rcases sqliteGeneration_eq_ok.mp hSql with
      ⟨hBound, hSame⟩
    rw [hSame, insertCatalogDocuments_eq hNew] at hInsert
    rcases bind_eq_ok.mp hInsert with
      ⟨first, hFirst, hInsert⟩
    injection hFirst with hFirst
    subst hFirst
    rw [insertSymbolDocuments_eq unicode hNew (by rfl)] at hInsert
    rcases bind_eq_ok.mp hInsert with
      ⟨second, hSecond, hInsert⟩
    injection hSecond with hSecond
    subst hSecond
    rcases bind_eq_ok.mp hInsert with
      ⟨third, hThird, hInsert⟩
    rcases
      (insertExportDocuments_iff unicode hNew (by rfl)).mp
        hThird with
      ⟨hDistinct, hThird⟩
    subst hThird
    rw [insertHeritageDocuments_eq hNew (by rfl) (by rfl)]
      at hInsert
    rcases bind_eq_ok.mp hInsert with
      ⟨fourth, hFourth, hInsert⟩
    injection hFourth with hFourth
    subst hFourth
    rw [insertReferenceDocuments_eq hNew (by rfl) (by rfl)
      (by rfl) (by rfl)] at hInsert
    injection hInsert with hTables
    exact ⟨hBound, hDistinct, hTables.symm⟩
  · rintro ⟨hBound, hDistinct, rfl⟩
    refine
      bind_eq_ok.mpr
        ⟨generation, sqliteGeneration_eq_ok.mpr ⟨hBound, rfl⟩, ?_⟩
    rw [insertCatalogDocuments_eq hNew]
    refine bind_eq_ok.mpr ⟨_, rfl, ?_⟩
    rw [insertSymbolDocuments_eq unicode hNew (by rfl)]
    refine bind_eq_ok.mpr ⟨_, rfl, ?_⟩
    refine
      bind_eq_ok.mpr
        ⟨_, (insertExportDocuments_iff unicode hNew
          (by rfl)).mpr ⟨hDistinct, rfl⟩, ?_⟩
    rw [insertHeritageDocuments_eq hNew (by rfl) (by rfl)]
    refine bind_eq_ok.mpr ⟨_, rfl, ?_⟩
    rw [insertReferenceDocuments_eq hNew (by rfl) (by rfl)
      (by rfl) (by rfl)]
    rfl

/-
  What writing a list of documents must have done, wherever
  the list stands in the build.
-/
def Wrote
    (generation _offset : Nat)
    (documents : List DocumentSymbols)
    (writer writer' : Writer) : Prop :=
  Insertable writer.tables documents →
    (∀ document ∈ documents, Storable document) ∧
      writer'.tables.SameRows
        (writer.tables.append
          (documentsTables unicode generation documents))

/- The second part is new to what the first one left. -/
theorem insertable_rest
    {first second : List DocumentSymbols}
    (hNew : Insertable tables (first ++ second))
    (hSame :
      tables'.SameRows
        (tables.append
          (documentsTables unicode generation first))) :
    Insertable tables' second :=
  (hNew.right unicode generation).sameRows hSame.symm

theorem compositional_wrote (generation : Nat) :
    Compositional (Wrote unicode generation) where
  nil := by
    intro offset writer _
    refine ⟨by simp, ?_⟩
    rw [documentsTables_nil, CatalogTables.append_empty]
    exact CatalogTables.SameRows.refl _
  append := by
    intro offset first second writer middle writer'
      hFirst hSecond hNew
    rcases hFirst hNew.left with ⟨hStorable, hMiddle⟩
    rcases hSecond (insertable_rest unicode hNew hMiddle)
      with ⟨hStorable', hLast⟩
    refine
      ⟨List.forall_mem_append.mpr ⟨hStorable, hStorable'⟩, ?_⟩
    rw [documentsTables_append, ← CatalogTables.append_assoc]
    exact
      hLast.trans (hMiddle.append (CatalogTables.SameRows.refl _))

/- Only the tables of a writer matter. -/
theorem Wrote.of_tables
    {generation offset offset' : Nat}
    {documents : List DocumentSymbols}
    {first first' last last' : Writer}
    (hFirst : first'.tables = first.tables)
    (hLast : last'.tables = last.tables)
    (hWrote :
      Wrote unicode generation offset documents first last) :
    Wrote unicode generation offset' documents first'
      last' := by
  unfold Wrote
  rw [hFirst, hLast]
  exact hWrote

variable {surroundings : Surroundings}

variable {writer writer' : Writer}
variable {generation written : Nat}

theorem writeBatch_wrote
    {documents : List DocumentSymbols}
    (hWrite :
      writeBatch surroundings unicode generation written
          documents writer = Except.ok writer')
    (offset : Nat) :
    Wrote unicode generation offset documents writer
      writer' := by
  intro hNew
  unfold writeBatch at hWrite
  rcases bind_eq_ok.mp hWrite with ⟨_, hValid, hWrite⟩
  rcases bind_eq_ok.mp hWrite with ⟨tables, hBatch, hWrite⟩
  rcases bind_eq_ok.mp hWrite with ⟨first, _, hWrite⟩
  rcases bind_eq_ok.mp hWrite with ⟨second, hSecond, hWrite⟩
  rcases bind_eq_ok.mp hWrite with ⟨third, hThird, hLast⟩
  rcases (insertBatch_iff unicode hNew).mp hBatch with
    ⟨_, hExports, rfl⟩
  refine ⟨?_, ?_⟩
  · intro document hDocument
    exact
      ⟨forM_eq_ok.mp hValid document hDocument,
        hExports document hDocument⟩
  · rw [tables_of_emit hLast, tables_of_checkpoint hThird,
      tables_of_emit hSecond]
    exact CatalogTables.SameRows.refl _

variable {document : DocumentSymbols}

theorem writeOversized_wrote
    (hWrite :
      writeOversized surroundings unicode generation written
          document writer = Except.ok writer')
    (offset : Nat) :
    Wrote unicode generation offset [document] writer
      writer' := by
  intro hNew
  unfold writeOversized at hWrite
  rcases bind_eq_ok.mp hWrite with ⟨_, hValid, hWrite⟩
  rcases bind_eq_ok.mp hWrite with ⟨middle, hRows, hLast⟩
  rcases
    CatalogDocument.write_spec unicode
      (hNew.fresh document (List.mem_singleton_self _))
      hRows with
    ⟨hExports, hSame⟩
  rw [tables_of_emit hLast, documentsTables_singleton]
  refine ⟨?_, hSame⟩
  intro other hOther
  rw [List.mem_singleton.mp hOther]
  exact ⟨hValid, hExports⟩

theorem writeChunk_wrote
    {generation offset : Nat}
    {documents : List DocumentSymbols}
    (hWrite :
      writeChunk surroundings unicode generation offset
          documents writer = Except.ok writer') :
    Wrote unicode generation offset documents writer
      writer' := by
  unfold writeChunk at hWrite
  rcases bind_eq_ok.mp hWrite with ⟨first, hFirst, hWrite⟩
  refine
    Wrote.of_tables unicode (tables_of_emit hFirst).symm rfl
      (?_ :
        Wrote unicode generation offset documents first writer')
  split at hWrite
  · split at hWrite
    · exact writeOversized_wrote unicode hWrite offset
    · exact writeBatch_wrote unicode hWrite offset
  · exact writeBatch_wrote unicode hWrite offset

theorem writeDocuments_wrote
    {documents : List DocumentSymbols}
    (hWrite :
      writeDocuments surroundings unicode generation documents
          writer = Except.ok writer')
    (offset : Nat) :
    Wrote unicode generation offset documents writer
      writer' := by
  refine
    Wrote.of_tables unicode rfl rfl
      (chunkLoop_spec (compositional_wrote unicode generation)
        batchChunk ?_ hWrite)
  intro start chunk first last hChunk
  exact writeChunk_wrote unicode hChunk

----------
-- Batches That Fit
----------

/- The next transaction goes through when nobody cancels. -/
theorem writeBatch_total
    (hCooperative : surroundings.Cooperative)
    (hGeneration : generation < 2 ^ 63)
    (written : Nat)
    {documents : List DocumentSymbols}
    (hNew : Insertable writer.tables documents)
    (hStorable : ∀ document ∈ documents, Storable document) :
    ∃ writer',
      writeBatch surroundings unicode generation written
        documents writer = Except.ok writer' := by
  have hBatch :=
    (insertBatch_iff unicode hNew).mpr
      ⟨hGeneration,
        fun document hDocument =>
          (hStorable document hDocument).exports, rfl⟩
  rcases emit_total hCooperative .committing writer with
    ⟨first, hFirst⟩
  have hSecond :=
    emit_total hCooperative .checkpointing
      { first with
        tables :=
          writer.tables.append
            (documentsTables unicode generation documents)
        progress :=
          { first.progress with
            writtenDocuments := written
            writtenRows :=
              saturatingAdd first.progress.writtenRows
                (actualRows documents writer.tables
                  (writer.tables.append
                    (documentsTables unicode generation
                      documents))) } }
  rcases hSecond with ⟨second, hSecond⟩
  rcases checkpoint_total hCooperative second with
    ⟨third, hThird⟩
  rcases emit_total hCooperative .writing third with
    ⟨last, hLast⟩
  refine ⟨last, ?_⟩
  unfold writeBatch
  refine
    bind_eq_ok.mpr
      ⟨(), forM_eq_ok.mpr fun document hDocument =>
        (hStorable document hDocument).valid, ?_⟩
  refine bind_eq_ok.mpr ⟨_, hBatch, ?_⟩
  refine bind_eq_ok.mpr ⟨first, hFirst, ?_⟩
  refine bind_eq_ok.mpr ⟨second, hSecond, ?_⟩
  exact bind_eq_ok.mpr ⟨third, hThird, hLast⟩

theorem writeOversized_total
    (hCooperative : surroundings.Cooperative)
    (hGeneration : generation < 2 ^ 63)
    (written : Nat)
    (hNew : Insertable writer.tables [document])
    (hStorable : Storable document) :
    ∃ writer',
      writeOversized surroundings unicode generation written
        document writer = Except.ok writer' := by
  rcases
    CatalogDocument.write_total unicode hCooperative
      hGeneration hStorable.exports
      (hNew.fresh document (List.mem_singleton_self _)) with
    ⟨middle, hMiddle⟩
  rcases
    emit_total hCooperative .writing
      { middle with
        progress :=
          { middle.progress with
            writtenDocuments := written } } with
    ⟨last, hLast⟩
  exact
    ⟨last, bind_eq_ok.mpr ⟨(), hStorable.valid,
      bind_eq_ok.mpr ⟨middle, hMiddle, hLast⟩⟩⟩

theorem writeChunk_total
    (hCooperative : surroundings.Cooperative)
    (hGeneration : generation < 2 ^ 63)
    (offset : Nat)
    {documents : List DocumentSymbols}
    (hNew : Insertable writer.tables documents)
    (hStorable : ∀ document ∈ documents, Storable document) :
    ∃ writer',
      writeChunk surroundings unicode generation offset
        documents writer = Except.ok writer' := by
  rcases emit_total hCooperative .writing writer with
    ⟨first, hFirst⟩
  rw [← tables_of_emit hFirst] at hNew
  unfold writeChunk
  rw [hFirst]
  cases documents with
  | nil =>
    exact
      writeBatch_total unicode hCooperative hGeneration _
        hNew hStorable
  | cons document rest =>
    cases rest with
    | nil =>
      by_cases hSize : isOversized document = true
      · have hOne :=
          writeOversized_total unicode hCooperative
            hGeneration (offset + 1) hNew
            (hStorable document List.mem_cons_self)
        simpa [hSize, bind, Except.bind] using hOne
      · have hOne :=
          writeBatch_total unicode hCooperative
            hGeneration (offset + 1) hNew hStorable
        simpa [hSize, bind, Except.bind] using hOne
    | cons second rest =>
      exact
        writeBatch_total unicode hCooperative hGeneration
          _ hNew hStorable

theorem writeDocuments_total
    (hCooperative : surroundings.Cooperative)
    (hGeneration : generation < 2 ^ 63)
    {documents : List DocumentSymbols}
    (hNew : Insertable writer.tables documents)
    (hStorable : ∀ document ∈ documents, Storable document) :
    ∃ writer',
      writeDocuments surroundings unicode generation documents
        writer = Except.ok writer' := by
  refine
    chunkLoop_total
      (fun _ documents (writer : Writer) =>
        Insertable writer.tables documents ∧
          ∀ document ∈ documents, Storable document)
      batchChunk ?_ ⟨hNew, hStorable⟩
  rintro offset first second writer ⟨hBoth, hAll⟩
  rcases List.forall_mem_append.mp hAll with
    ⟨hFirst, hSecond⟩
  rcases
    writeChunk_total unicode hCooperative hGeneration offset
      hBoth.left hFirst with
    ⟨writer', hWrite⟩
  rcases writeChunk_wrote unicode hWrite hBoth.left with
    ⟨_, hSame⟩
  exact
    ⟨writer', hWrite, insertable_rest unicode hBoth hSame,
      hSecond⟩

----------
-- Streams
----------

/- The documents among a producer's events, in order. -/
def documentsOf (events : List CatalogInput) :
    List DocumentSymbols :=
  events.filterMap fun event =>
    match event with
    | .document document => some document
    | _ => none

def rejectedOf (events : List CatalogInput) : List String :=
  events.filterMap fun event =>
    match event with
    | .rejected uri => some uri
    | _ => none

/- A producer that delivers its events and completes. -/
def completeStream (events : List CatalogInput) :
    List (Except StoreError CatalogInput) :=
  events.map Except.ok ++ [Except.ok CatalogInput.complete]

/-
  Documents join the buffer at its end and leave it at its
  front, written in the order in which they came.
-/
def Moved
    (generation : Nat)
    (added : List DocumentSymbols)
    (state state' : StreamState) : Prop :=
  ∃ front,
    state.documents ++ added = front ++ state'.documents ∧
      Wrote unicode generation 0 front state.writer
        state'.writer

theorem Moved.trans
    {added added' : List DocumentSymbols}
    {first second third : StreamState}
    (hFirst : Moved unicode generation added first second)
    (hSecond : Moved unicode generation added' second third) :
    Moved unicode generation (added ++ added') first
      third := by
  rcases hFirst with ⟨front, hFront, hWrote⟩
  rcases hSecond with ⟨front', hFront', hWrote'⟩
  refine ⟨front ++ front', ?_, ?_⟩
  · rw [← List.append_assoc, hFront, List.append_assoc,
      hFront', List.append_assoc]
  · exact
      (compositional_wrote unicode generation).append hWrote
        (Wrote.of_tables unicode rfl rfl hWrote')

variable {state state' : StreamState}

/- A step that writes nothing and buffers what it is given. -/
theorem moved_of_buffered
    {added : List DocumentSymbols}
    (hTables : state'.writer.tables = state.writer.tables)
    (hDocuments :
      state'.documents = state.documents ++ added) :
    Moved unicode generation added state state' := by
  refine ⟨[], ?_, ?_⟩
  · rw [List.nil_append, hDocuments]
  · exact
      Wrote.of_tables unicode rfl hTables
        ((compositional_wrote unicode generation).nil 0
          state.writer)

theorem flush_spec
    (hFlush :
      flush surroundings unicode generation state =
        Except.ok state') :
    Moved unicode generation [] state state' ∧
      state'.documents = [] ∧
      state'.rejectedUris = state.rejectedUris ∧
      state'.previousUri = state.previousUri := by
  unfold flush at hFlush
  rcases bind_eq_ok.mp hFlush with ⟨writer, hWrite, hPure⟩
  rw [← pure_eq_ok.mp hPure]
  refine ⟨⟨state.documents, ?_, ?_⟩, rfl, rfl, rfl⟩
  · rfl
  · exact writeDocuments_wrote unicode hWrite 0

/- A flush that some of the states need. -/
theorem flushWhen_spec
    {flushes : Prop} [Decidable flushes]
    (hFlush :
      (if flushes then
          flush surroundings unicode generation state
        else Except.ok state) = Except.ok state') :
    Moved unicode generation [] state state' ∧
      state'.rejectedUris = state.rejectedUris ∧
      state'.previousUri = state.previousUri := by
  split at hFlush
  · rcases flush_spec unicode hFlush with
      ⟨hMoved, _, hRejected, hPrevious⟩
    exact ⟨hMoved, hRejected, hPrevious⟩
  · injection hFlush with hState
    rw [← hState]
    exact ⟨moved_of_buffered unicode rfl (by simp), rfl, rfl⟩

theorem consumeDocument_spec
    (hConsume :
      consumeDocument surroundings unicode generation document
          state = Except.ok state') :
    Moved unicode generation [document] state state' ∧
      state'.rejectedUris = state.rejectedUris ∧
      state'.previousUri = some document.uri := by
  unfold consumeDocument at hConsume
  split at hConsume
  · cases hConsume
  rcases bind_eq_ok.mp hConsume with
    ⟨middle, hBefore, hAfter⟩
  rcases flushWhen_spec unicode hBefore with
    ⟨hFirst, hRejected, hPrevious⟩
  rcases flushWhen_spec unicode hAfter with
    ⟨hLast, hRejected', hPrevious'⟩
  have hStart :
      Moved unicode generation [] state
        { state with previousUri := some document.uri } :=
    moved_of_buffered unicode rfl (by simp)
  have hBuffered :
      Moved unicode generation [document] middle
        { middle with
          documents := middle.documents ++ [document]
          load := addToBatch middle.load document } :=
    moved_of_buffered unicode rfl rfl
  have hMoved :=
    ((hStart.trans unicode hFirst).trans unicode
      hBuffered).trans unicode hLast
  exact
    ⟨hMoved, hRejected'.trans hRejected,
      hPrevious'.trans hPrevious⟩

variable {events : List CatalogInput}

/- The whole stream goes through the writer in order. -/
theorem consume_spec
    (hOpen : CatalogInput.complete ∉ events)
    (hConsume :
      consume surroundings unicode generation
          (completeStream events) state = Except.ok state') :
    Wrote unicode generation 0
        (state.documents ++ documentsOf events) state.writer
        state'.writer ∧
      state'.rejectedUris =
        state.rejectedUris ++ rejectedOf events := by
  induction events generalizing state with
  | nil =>
    unfold consume at hConsume
    rcases bind_eq_ok.mp hConsume with
      ⟨first, hFirst, hConsume⟩
    rcases bind_eq_ok.mp hConsume with
      ⟨input, hInput, hConsume⟩
    injection hInput with hInput
    subst hInput
    rcases bind_eq_ok.mp hConsume with
      ⟨second, hSecond, hFlush⟩
    rcases flush_spec unicode hFlush with
      ⟨⟨front, hFront, hWrote⟩, hEmpty, hRejected, _⟩
    rw [hEmpty] at hFront
    simp only [List.append_nil] at hFront
    refine ⟨?_, ?_⟩
    · rw [show documentsOf [] = [] from rfl,
        List.append_nil, hFront]
      refine Wrote.of_tables unicode ?_ rfl hWrote
      have hSame := tables_of_emit hSecond
      rw [tables_of_emit hFirst] at hSame
      exact hSame.symm
    · rw [hRejected, show rejectedOf [] = [] from rfl,
        List.append_nil]
  | cons event events ih =>
    have hRestOpen : CatalogInput.complete ∉ events :=
      fun hMem => hOpen (List.mem_cons_of_mem _ hMem)
    unfold completeStream at hConsume
    rw [List.map_cons, List.cons_append] at hConsume
    unfold consume at hConsume
    rcases bind_eq_ok.mp hConsume with
      ⟨first, hFirst, hConsume⟩
    rcases bind_eq_ok.mp hConsume with
      ⟨input, hInput, hConsume⟩
    injection hInput with hInput
    subst hInput
    cases event with
    | document document =>
      rcases bind_eq_ok.mp hConsume with
        ⟨middle, hDocument, hRest⟩
      rcases consumeDocument_spec unicode hDocument with
        ⟨⟨front, hFront, hWrote⟩, hRejected, _⟩
      rcases ih hRestOpen hRest with ⟨hLast, hUris⟩
      refine ⟨?_, ?_⟩
      · have hSplit :
            state.documents ++
                documentsOf (.document document :: events) =
              front ++
                (middle.documents ++ documentsOf events) := by
          rw [← List.append_assoc, ← hFront, List.append_assoc]
          rfl
        rw [hSplit]
        refine
          (compositional_wrote unicode generation).append
            (Wrote.of_tables unicode
              (tables_of_emit hFirst).symm rfl hWrote)
            (Wrote.of_tables unicode rfl rfl hLast)
      · rw [hUris, hRejected]
        rfl
    | rejected uri =>
      rcases ih hRestOpen hConsume with ⟨hLast, hUris⟩
      refine ⟨?_, ?_⟩
      · exact
          Wrote.of_tables unicode
            (tables_of_emit hFirst).symm rfl hLast
      · rw [hUris]
        simp [rejectedOf]
    | complete =>
      exact absurd List.mem_cons_self hOpen

----------
-- Streams That Fit
----------

theorem flush_total
    (hCooperative : surroundings.Cooperative)
    (hGeneration : generation < 2 ^ 63)
    (state : StreamState)
    (hNew :
      Insertable state.writer.tables state.documents)
    (hStorable :
      ∀ document ∈ state.documents, Storable document) :
    ∃ state',
      flush surroundings unicode generation state =
        Except.ok state' := by
  rcases
    writeDocuments_total unicode hCooperative hGeneration
      hNew hStorable with
    ⟨writer, hWrite⟩
  exact ⟨_, bind_eq_ok.mpr ⟨writer, hWrite, rfl⟩⟩

theorem flushWhen_total
    {flushes : Prop} [Decidable flushes]
    (hCooperative : surroundings.Cooperative)
    (hGeneration : generation < 2 ^ 63)
    (state : StreamState)
    (hNew :
      Insertable state.writer.tables state.documents)
    (hStorable :
      ∀ document ∈ state.documents, Storable document) :
    ∃ state',
      (if flushes then
          flush surroundings unicode generation state
        else Except.ok state) = Except.ok state' := by
  split
  · exact
      flush_total unicode hCooperative hGeneration state
        hNew hStorable
  · exact ⟨state, rfl⟩

/- What is still to be written is new and can be stored. -/
structure StreamReady
    (state : StreamState)
    (coming : List DocumentSymbols) : Prop where
  insertable :
    Insertable state.writer.tables
      (state.documents ++ coming)
  storable :
    ∀ document ∈ state.documents ++ coming,
      Storable document

theorem StreamReady.moved
    {added coming : List DocumentSymbols}
    (hMoved : Moved unicode generation added state state')
    (hReady : StreamReady state (added ++ coming)) :
    StreamReady state' coming := by
  rcases hMoved with ⟨front, hFront, hWrote⟩
  have hNew := hReady.insertable
  have hStorable := hReady.storable
  rw [← List.append_assoc, hFront, List.append_assoc]
    at hNew hStorable
  rcases hWrote hNew.left with ⟨_, hSame⟩
  exact
    ⟨insertable_rest unicode hNew hSame,
      (List.forall_mem_append.mp hStorable).2⟩

variable {coming : List DocumentSymbols}

theorem StreamReady.buffered
    {state : StreamState}
    (hReady : StreamReady state coming) :
    Insertable state.writer.tables state.documents ∧
      ∀ document ∈ state.documents, Storable document :=
  ⟨hReady.insertable.left,
    (List.forall_mem_append.mp hReady.storable).1⟩

theorem consumeDocument_total
    (hCooperative : surroundings.Cooperative)
    (hGeneration : generation < 2 ^ 63)
    (state : StreamState)
    (hOrder :
      outOfOrder state.previousUri document.uri = false)
    (hReady : StreamReady state (document :: coming)) :
    ∃ state',
      consumeDocument surroundings unicode generation document
        state = Except.ok state' := by
  have hBuffered := hReady.buffered
  unfold consumeDocument
  rw [hOrder, if_neg Bool.false_ne_true]
  have hFlush :
      ∃ middle,
        flushBefore surroundings unicode generation document
            { state with previousUri := some document.uri } =
          Except.ok middle :=
    flushWhen_total unicode hCooperative hGeneration _
      hBuffered.1 hBuffered.2
  rcases hFlush with ⟨middle, hBefore⟩
  rcases flushWhen_spec unicode hBefore with
    ⟨hFirst, _, _⟩
  have hStart :
      StreamReady
        { state with previousUri := some document.uri }
        ([] ++ document :: coming) :=
    ⟨hReady.insertable, hReady.storable⟩
  have hMiddle := hStart.moved unicode hFirst
  have hAdded :
      StreamReady
        { middle with
          documents := middle.documents ++ [document]
          load := addToBatch middle.load document } coming := by
    have hMoved :
        Moved unicode generation [document] middle
          { middle with
            documents := middle.documents ++ [document]
            load := addToBatch middle.load document } :=
      moved_of_buffered unicode rfl rfl
    exact hMiddle.moved unicode hMoved
  have hFull :
      ∃ last,
        flushAfter surroundings unicode generation
            { middle with
              documents := middle.documents ++ [document]
              load := addToBatch middle.load document } =
          Except.ok last :=
    flushWhen_total unicode hCooperative hGeneration _
      hAdded.buffered.1 hAdded.buffered.2
  rcases hFull with ⟨last, hLast⟩
  exact ⟨last, bind_eq_ok.mpr ⟨middle, hBefore, hLast⟩⟩

/- Cooperation is all that a well-formed stream needs. -/
theorem consume_total
    (hCooperative : surroundings.Cooperative)
    (hGeneration : generation < 2 ^ 63)
    (hOpen : CatalogInput.complete ∉ events)
    (hSorted :
      (documentsOf events).Pairwise (·.uri < ·.uri))
    (state : StreamState)
    (hOrder :
      ∀ document ∈ documentsOf events,
        outOfOrder state.previousUri document.uri = false)
    (hReady : StreamReady state (documentsOf events)) :
    ∃ state',
      consume surroundings unicode generation
        (completeStream events) state = Except.ok state' := by
  rcases emit_total hCooperative .writing state.writer with
    ⟨first, hFirst⟩
  have hStarted :
      StreamReady { state with writer := first }
        (documentsOf events) := by
    refine ⟨?_, hReady.storable⟩
    have hNew := hReady.insertable
    rw [← tables_of_emit hFirst] at hNew
    exact hNew
  induction events generalizing state first with
  | nil =>
    rcases emit_total hCooperative .writing first with
      ⟨second, hSecond⟩
    have hBuffered := hStarted.buffered
    have hNew := hBuffered.1
    simp only at hNew
    rw [← tables_of_emit hSecond] at hNew
    rcases
      flush_total unicode hCooperative hGeneration
        { state with writer := second } hNew
        hBuffered.2 with
      ⟨state', hFlush⟩
    refine ⟨state', ?_⟩
    unfold completeStream consume
    refine bind_eq_ok.mpr ⟨first, hFirst, ?_⟩
    refine bind_eq_ok.mpr ⟨.complete, rfl, ?_⟩
    exact bind_eq_ok.mpr ⟨second, hSecond, hFlush⟩
  | cons event events ih =>
    have hRestOpen : CatalogInput.complete ∉ events :=
      fun hMem => hOpen (List.mem_cons_of_mem _ hMem)
    cases event with
    | document document =>
      have hDocs :
          documentsOf (.document document :: events) =
            document :: documentsOf events :=
        rfl
      rw [hDocs] at hSorted hOrder hStarted
      rcases List.pairwise_cons.mp hSorted with
        ⟨hHead, hTail⟩
      rcases
        consumeDocument_total unicode hCooperative
          hGeneration { state with writer := first }
          (hOrder document List.mem_cons_self)
          hStarted with
        ⟨middle, hDocument⟩
      rcases consumeDocument_spec unicode hDocument with
        ⟨hMoved, _, hPrevious⟩
      have hReady' :
          StreamReady middle (documentsOf events) :=
        hStarted.moved unicode hMoved
      have hOrder' :
          ∀ other ∈ documentsOf events,
            outOfOrder middle.previousUri other.uri = false := by
        intro other hOther
        rw [hPrevious]
        exact decide_eq_false (not_le.mpr (hHead other hOther))
      rcases
        emit_total hCooperative .writing middle.writer with
        ⟨second, hSecond⟩
      have hStarted' :
          StreamReady { middle with writer := second }
            (documentsOf events) := by
        refine ⟨?_, hReady'.storable⟩
        have hNew := hReady'.insertable
        rw [← tables_of_emit hSecond] at hNew
        exact hNew
      rcases
        ih hRestOpen hTail middle hOrder' hReady' second
          hSecond hStarted' with
        ⟨state', hRest⟩
      refine ⟨state', ?_⟩
      unfold completeStream
      rw [List.map_cons, List.cons_append]
      unfold consume
      refine bind_eq_ok.mpr ⟨first, hFirst, ?_⟩
      refine bind_eq_ok.mpr ⟨.document document, rfl, ?_⟩
      exact bind_eq_ok.mpr ⟨middle, hDocument, hRest⟩
    | rejected uri =>
      have hReady' :
          StreamReady
            { state with
              writer := first
              rejectedUris := state.rejectedUris ++ [uri] }
            (documentsOf events) :=
        ⟨hStarted.insertable, hStarted.storable⟩
      rcases emit_total hCooperative .writing first with
        ⟨second, hSecond⟩
      have hStarted' :
          StreamReady
            { state with
              writer := second
              rejectedUris := state.rejectedUris ++ [uri] }
            (documentsOf events) := by
        refine ⟨?_, hReady'.storable⟩
        have hNew := hReady'.insertable
        simp only at hNew
        rw [← tables_of_emit hSecond] at hNew
        exact hNew
      rcases
        ih hRestOpen hSorted
          { state with
            writer := first
            rejectedUris := state.rejectedUris ++ [uri] }
          hOrder hReady' second hSecond hStarted' with
        ⟨state', hRest⟩
      refine ⟨state', ?_⟩
      unfold completeStream
      rw [List.map_cons, List.cons_append]
      unfold consume
      refine bind_eq_ok.mpr ⟨first, hFirst, ?_⟩
      exact bind_eq_ok.mpr ⟨.rejected uri, rfl, hRest⟩
    | complete => exact absurd List.mem_cons_self hOpen

----------
-- Sealing
----------

theorem insertRejected_eq
    (rejected table : List String) :
    insertRejected rejected table =
      Except.ok (insertRowsIgnoring id rejected table) := by
  have hAdditive :
      Additive fun _ rows table =>
        (Except.ok (insertRowsIgnoring id rows table) :
          Except StoreError (List String)) := by
    refine ⟨fun _ _ => rfl, ?_⟩
    intro offset first second table
    rw [insertRowsIgnoring_append]
    rfl
  exact chunkLoop_of_additive hAdditive _ 0 rejected table

variable {rejected : List String}

/- The URIs that a new database rejects. -/
theorem mem_insertRejected
    {uri : String} :
    uri ∈ insertRowsIgnoring id rejected [] ↔
      uri ∈ rejected := by
  rcases insertRowsIgnoring_id rejected [] with
    ⟨added, hTable, _, hAdded⟩
  rw [hTable, List.nil_append, hAdded]
  simp

theorem hasDocument_of_mem
    {documents : List DocumentSymbols}
    (hDocuments :
      tables.documents =
        documents.map (settledDocumentRow generation))
    (hDocument : document ∈ documents) :
    hasDocument tables document.uri = true := by
  unfold hasDocument
  rw [hDocuments]
  refine
    List.any_eq_true.mpr
      ⟨settledDocumentRow generation document,
        List.mem_map_of_mem hDocument, ?_⟩
  exact decide_eq_true rfl

/- Rows that belong to documents have their documents. -/
theorem foreignKeysHold_of_sameRows
    {documents : List DocumentSymbols}
    (hSame :
      tables.SameRows
        (documentsTables unicode generation documents)) :
    foreignKeysHold tables = true := by
  have hTable :
      ∀ {Row : Type} (uriOf : Row → String)
        (rowsOf : DocumentSymbols → List Row)
        (rows : List Row),
        (∀ document, ∀ row ∈ rowsOf document,
          uriOf row = document.uri) →
        (∀ row ∈ rows, row ∈ documents.flatMap rowsOf) →
          rows.all (hasDocument tables ∘ uriOf) = true := by
    intro Row uriOf rowsOf rows hUri hRows
    refine List.all_eq_true.mpr fun row hRow => ?_
    rcases List.mem_flatMap.mp (hRows row hRow) with
      ⟨document, hDocument, hMem⟩
    have hHas := hasDocument_of_mem hSame.documents hDocument
    rw [← hUri document row hMem] at hHas
    exact hHas
  have hNumbered :
      ∀ {α Row : Type} (uriOf : Row → String)
        (items : List (α × Nat)) (row : α × Nat → Row)
        (uri : String),
        (∀ entry, uriOf (row entry) = uri) →
        ∀ other ∈ items.map row, uriOf other = uri := by
    intro α Row uriOf items row uri hUri other hOther
    rcases List.mem_map.mp hOther with ⟨entry, _, rfl⟩
    exact hUri entry
  unfold foreignKeysHold
  simp only [Bool.and_eq_true]
  refine ⟨⟨⟨⟨⟨⟨?_, ?_⟩, ?_⟩, ?_⟩, ?_⟩, ?_⟩, ?_⟩
  · refine hTable _ (symbolRows unicode 0) _ ?_ ?_
    · exact fun document =>
        hNumbered _ _ _ _ fun _ => rfl
    · exact fun row =>
        (congrArg (row ∈ ·) hSame.symbols).mp
  · refine hTable _ (exportRows unicode generation) _ ?_ ?_
    · intro document row hRow
      rcases List.mem_map.mp hRow with ⟨item, _, rfl⟩
      rfl
    · exact fun row =>
        (congrArg (row ∈ ·) hSame.exports).mp
  · refine hTable _ (occurrenceRows 0) _ ?_ ?_
    · exact fun document =>
        hNumbered _ _ _ _ fun _ => rfl
    · exact fun row =>
        (congrArg (row ∈ ·) hSame.occurrences).mp
  · refine
      hTable _
        (fun document =>
          identityRows document.uri document.occurrences)
        _ ?_ ?_
    · intro document row hRow
      rcases mem_identityRows.mp hRow with ⟨_, _, rfl⟩
      rfl
    · exact fun row hRow => hSame.identities.mem_iff.mp hRow
  · refine hTable _ (aliasRows 0) _ ?_ ?_
    · exact fun document =>
        hNumbered _ _ _ _ fun _ => rfl
    · exact fun row =>
        (congrArg (row ∈ ·) hSame.aliases).mp
  · refine hTable _ (bindingRows 0) _ ?_ ?_
    · exact fun document =>
        hNumbered _ _ _ _ fun _ => rfl
    · exact fun row =>
        (congrArg (row ∈ ·) hSame.bindings).mp
  · refine hTable _ (documentHeritageRows 0) _ ?_ ?_
    · intro document
      rw [documentHeritageRows_eq]
      exact hNumbered _ _ _ _ fun _ => rfl
    · exact fun row =>
        (congrArg (row ∈ ·) hSame.heritage).mp

theorem sealDatabase_spec
    {database : CatalogDatabase}
    (hSeal :
      sealDatabase surroundings generation rejected writer =
        Except.ok database) :
    generation < 2 ^ 63 ∧
      database.tables = writer.tables ∧
      (∀ uri, uri ∈ database.rejected ↔ uri ∈ rejected) ∧
      database.committedGeneration = generation := by
  unfold sealDatabase at hSeal
  rcases bind_eq_ok.mp hSeal with ⟨first, hFirst, hSeal⟩
  rcases bind_eq_ok.mp hSeal with ⟨_, _, hSeal⟩
  rcases bind_eq_ok.mp hSeal with ⟨second, hSecond, hSeal⟩
  rcases bind_eq_ok.mp hSeal with ⟨sealed, hFinish, hSeal⟩
  rcases bind_eq_ok.mp hSeal with ⟨third, _, hSeal⟩
  rcases bind_eq_ok.mp hSeal with ⟨last, _, hPure⟩
  rw [← pure_eq_ok.mp hPure]
  unfold finishMetadata at hFinish
  rw [insertRejected_eq] at hFinish
  rcases bind_eq_ok.mp hFinish with
    ⟨table, hTable, hFinish⟩
  injection hTable with hTable
  rcases bind_eq_ok.mp hFinish with ⟨sql, hSql, hFinish⟩
  rcases sqliteGeneration_eq_ok.mp hSql with ⟨hBound, hSame⟩
  rw [← pure_eq_ok.mp hFinish]
  refine ⟨hBound, ?_, ?_, hSame⟩
  · exact (tables_of_emit hSecond).trans (tables_of_emit hFirst)
  · intro uri
    rw [← hTable]
    exact mem_insertRejected

theorem sealDatabase_total
    (hCooperative : surroundings.Cooperative)
    (hGeneration : generation < 2 ^ 63)
    (rejected : List String)
    (hKeys : foreignKeysHold writer.tables = true) :
    ∃ database,
      sealDatabase surroundings generation rejected writer =
        Except.ok database := by
  rcases emit_total hCooperative .validating writer with
    ⟨first, hFirst⟩
  have hValid : validate first.tables = Except.ok () := by
    unfold validate
    rw [tables_of_emit hFirst, if_pos hKeys]
  rcases emit_total hCooperative .checkpointing first with
    ⟨second, hSecond⟩
  rcases checkpoint_total hCooperative second with
    ⟨third, hThird⟩
  rcases emit_total hCooperative .checkpointing third with
    ⟨last, hLast⟩
  have hFinish :
      ∃ database,
        finishMetadata generation rejected
            { CatalogDatabase.new with
              tables := second.tables } =
          Except.ok database := by
    unfold finishMetadata
    rw [insertRejected_eq]
    exact
      ⟨_, bind_eq_ok.mpr ⟨_, rfl, bind_eq_ok.mpr
        ⟨generation,
          sqliteGeneration_eq_ok.mpr ⟨hGeneration, rfl⟩,
          rfl⟩⟩⟩
  rcases hFinish with ⟨database, hFinish⟩
  refine ⟨database, ?_⟩
  unfold sealDatabase
  refine bind_eq_ok.mpr ⟨first, hFirst, ?_⟩
  refine bind_eq_ok.mpr ⟨(), hValid, ?_⟩
  refine bind_eq_ok.mpr ⟨second, hSecond, ?_⟩
  refine bind_eq_ok.mpr ⟨database, hFinish, ?_⟩
  refine bind_eq_ok.mpr ⟨third, hThird, ?_⟩
  exact bind_eq_ok.mpr ⟨last, hLast, rfl⟩

----------
-- One by One
----------

/- Insert documents as an incremental transaction does. -/
def insertOneByOne
    (generation : Nat)
    (documents : List DocumentSymbols) :
    Except StoreError CatalogTables := do
  let sql ← sqliteGeneration generation
  documents.foldlM
    (fun tables document => do
      validateReplacement document
      insertDocument unicode sql document tables)
    CatalogTables.empty

theorem insertEach_iff
    {documents : List DocumentSymbols}
    (hNew : Insertable tables documents) :
    documents.foldlM
        (fun tables document =>
          validateReplacement document >>= fun _ =>
            insertDocument unicode generation document tables)
        tables = Except.ok tables' ↔
      (∀ document ∈ documents, Storable document) ∧
        tables' =
          tables.append
            (documentsTables unicode generation
              documents) := by
  induction documents generalizing tables with
  | nil =>
    rw [List.foldlM_nil, pure_eq_ok, documentsTables_nil,
      CatalogTables.append_empty]
    constructor
    · rintro rfl
      exact ⟨by simp, rfl⟩
    · rintro ⟨_, rfl⟩
      rfl
  | cons document documents ih =>
    have hLacks := hNew.fresh document List.mem_cons_self
    have hSplit :
        document :: documents = [document] ++ documents :=
      rfl
    have hRest :
        Insertable
          (tables.append
            (documentTables unicode generation document))
          documents := by
      rw [← documentsTables_singleton]
      rw [hSplit] at hNew
      exact hNew.right unicode generation
    have hRows :
        tables.append
            (documentsTables unicode generation
              (document :: documents)) =
          (tables.append
            (documentTables unicode generation document)).append
            (documentsTables unicode generation documents) := by
      rw [hSplit, documentsTables_append,
        documentsTables_singleton,
        CatalogTables.append_assoc]
    rw [List.foldlM_cons, bind_eq_ok, List.forall_mem_cons, hRows]
    constructor
    · rintro ⟨middle, hFirst, hLast⟩
      rcases bind_eq_ok.mp hFirst with
        ⟨_, hValid, hInsert⟩
      rcases (insertDocument_iff unicode hLacks).mp hInsert
        with ⟨hExports, rfl⟩
      rcases (ih hRest).mp hLast with ⟨hStorable, hTables⟩
      exact ⟨⟨⟨hValid, hExports⟩, hStorable⟩, hTables⟩
    · rintro ⟨⟨hFirst, hStorable⟩, hTables⟩
      exact
        ⟨_, bind_eq_ok.mpr ⟨(), hFirst.valid,
            (insertDocument_iff unicode hLacks).mpr
              ⟨hFirst.exports, rfl⟩⟩,
          (ih hRest).mpr ⟨hStorable, hTables⟩⟩

theorem insertable_of_sorted
    {documents : List DocumentSymbols}
    (hSorted : documents.Pairwise (·.uri < ·.uri)) :
    Insertable CatalogTables.empty documents := by
  refine
    ⟨fun document _ =>
      CatalogTables.lacks_empty document.uri, ?_⟩
  refine List.pairwise_map.mpr (hSorted.imp ?_)
  intro first second hLt
  exact hLt.ne

theorem insertable_new
    {documents : List DocumentSymbols}
    (hSorted : documents.Pairwise (·.uri < ·.uri)) :
    Insertable Writer.new.tables documents :=
  insertable_of_sorted hSorted

theorem insertOneByOne_iff
    {documents : List DocumentSymbols}
    (hSorted : documents.Pairwise (·.uri < ·.uri)) :
    insertOneByOne unicode generation documents =
        Except.ok tables ↔
      generation < 2 ^ 63 ∧
        (∀ document ∈ documents, Storable document) ∧
        tables =
          documentsTables unicode generation documents := by
  have hEach :
      documents.foldlM
          (fun tables document =>
            validateReplacement document >>= fun _ =>
              insertDocument unicode generation document tables)
          CatalogTables.empty = Except.ok tables ↔
        (∀ document ∈ documents, Storable document) ∧
          tables =
            documentsTables unicode generation documents := by
    rw [insertEach_iff unicode (insertable_of_sorted hSorted),
      CatalogTables.empty_append]
  unfold insertOneByOne
  rw [bind_eq_ok]
  constructor
  · rintro ⟨sql, hSql, hInsert⟩
    rcases sqliteGeneration_eq_ok.mp hSql with
      ⟨hBound, rfl⟩
    exact ⟨hBound, hEach.mp hInsert⟩
  · rintro ⟨hBound, hInsert⟩
    exact
      ⟨generation,
        sqliteGeneration_eq_ok.mpr ⟨hBound, rfl⟩,
        hEach.mpr hInsert⟩

----------
-- Agreement
----------

/-
  Any split of the documents into transactions, with any of
  them routed through the oversized path.
-/
inductive CatalogPart where
| batch (documents : List DocumentSymbols)
| oversized (document : DocumentSymbols)

def CatalogPart.documents : CatalogPart → List DocumentSymbols
| .batch documents => documents
| .oversized document => [document]

def writePart
    (surroundings : Surroundings)
    (generation : Nat)
    (writer : Writer) :
    CatalogPart → Except StoreError Writer
| .batch documents =>
    writeBatch surroundings unicode generation
      (writer.progress.writtenDocuments + documents.length)
      documents writer
| .oversized document =>
    writeOversized surroundings unicode generation
      (writer.progress.writtenDocuments + 1) document writer

def buildCatalogParts
    (surroundings : Surroundings)
    (generation : Nat)
    (parts : List CatalogPart)
    (rejected : List String) :
    Except StoreError CatalogDatabase := do
  let writer ←
    parts.foldlM
      (writePart unicode surroundings generation) Writer.new
  sealDatabase surroundings generation rejected writer

/-
  A build that succeeds holds the expected rows, and when
  nothing cancels it, it succeeds where they can be inserted.
-/
structure Agrees
    (surroundings : Surroundings)
    (generation : Nat)
    (rejected : List String)
    (expected : Except StoreError CatalogTables)
    (built : Except StoreError CatalogDatabase) : Prop where
  sound :
    ∀ database,
      built = Except.ok database →
        ∃ tables,
          expected = Except.ok tables ∧
            database.tables.SameRows tables ∧
            (∀ uri,
              uri ∈ database.rejected ↔ uri ∈ rejected) ∧
            database.committedGeneration = generation
  complete :
    surroundings.Cooperative →
      ∀ tables,
        expected = Except.ok tables →
          ∃ database, built = Except.ok database

/- From what the writer did to what the build leaves. -/
theorem agrees_of_wrote
    {documents : List DocumentSymbols}
    (hSorted : documents.Pairwise (·.uri < ·.uri))
    {built : Except StoreError CatalogDatabase}
    (hSound :
      ∀ database,
        built = Except.ok database →
          ∃ writer,
            Wrote unicode generation 0 documents Writer.new
                writer ∧
              sealDatabase surroundings generation rejected
                  writer = Except.ok database)
    (hComplete :
      surroundings.Cooperative →
        generation < 2 ^ 63 →
        (∀ document ∈ documents, Storable document) →
          ∃ writer,
            Wrote unicode generation 0 documents Writer.new
                writer ∧
              (∀ database,
                sealDatabase surroundings generation rejected
                    writer = Except.ok database →
                  built = Except.ok database)) :
    Agrees surroundings generation rejected
      (insertOneByOne unicode generation documents)
      built where
  sound := by
    intro database hBuilt
    rcases hSound database hBuilt with
      ⟨writer, hWrote, hSeal⟩
    rcases hWrote (insertable_new hSorted) with
      ⟨hStorable, hSame⟩
    rcases sealDatabase_spec hSeal with
      ⟨hBound, hTables, hRejected, hGeneration⟩
    refine
      ⟨_, (insertOneByOne_iff unicode hSorted).mpr
        ⟨hBound, hStorable, rfl⟩, ?_, hRejected,
        hGeneration⟩
    rw [hTables]
    have hNew : Writer.new.tables = CatalogTables.empty := rfl
    rw [hNew, CatalogTables.empty_append] at hSame
    exact hSame
  complete := by
    intro hCooperative tables hExpected
    rcases (insertOneByOne_iff unicode hSorted).mp hExpected
      with ⟨hBound, hStorable, _⟩
    rcases hComplete hCooperative hBound hStorable with
      ⟨writer, hWrote, hBuilt⟩
    rcases hWrote (insertable_new hSorted) with
      ⟨_, hSame⟩
    have hNew : Writer.new.tables = CatalogTables.empty := rfl
    rw [hNew, CatalogTables.empty_append] at hSame
    rcases
      sealDatabase_total hCooperative hBound rejected
        (foreignKeysHold_of_sameRows unicode hSame) with
      ⟨database, hSeal⟩
    exact ⟨database, hBuilt database hSeal⟩

theorem sortByUri_of_sorted
    {documents : List DocumentSymbols}
    (hSorted : documents.Pairwise (·.uri < ·.uri)) :
    sortByUri documents = documents := by
  unfold sortByUri
  refine List.Pairwise.insertionSort_eq ?_
  exact hSorted.imp fun hLt => hLt.le

theorem buildCatalog_agrees
    {generation : Nat}
    {documents : List DocumentSymbols}
    (rejected : List String)
    (hSorted : documents.Pairwise (·.uri < ·.uri)) :
    Agrees surroundings generation rejected
      (insertOneByOne unicode generation documents)
      (buildCatalog surroundings unicode
        ⟨generation, documents, rejected⟩) := by
  refine agrees_of_wrote unicode hSorted ?_ ?_
  · intro database hBuilt
    unfold buildCatalog at hBuilt
    rw [sortByUri_of_sorted hSorted] at hBuilt
    rcases bind_eq_ok.mp hBuilt with ⟨writer, hWrite, hSeal⟩
    exact ⟨writer, writeDocuments_wrote unicode hWrite 0, hSeal⟩
  · intro hCooperative hBound hStorable
    rcases
      writeDocuments_total unicode hCooperative hBound
        (insertable_new hSorted) hStorable with
      ⟨writer, hWrite⟩
    refine ⟨writer, writeDocuments_wrote unicode hWrite 0, ?_⟩
    intro database hSeal
    unfold buildCatalog
    rw [sortByUri_of_sorted hSorted]
    exact bind_eq_ok.mpr ⟨writer, hWrite, hSeal⟩

theorem buildCatalogStream_agrees
    (hOpen : CatalogInput.complete ∉ events)
    (hSorted :
      (documentsOf events).Pairwise (·.uri < ·.uri)) :
    Agrees surroundings generation (rejectedOf events)
      (insertOneByOne unicode generation
        (documentsOf events))
      (buildCatalogStream surroundings unicode generation
        (completeStream events)) := by
  refine agrees_of_wrote unicode hSorted ?_ ?_
  · intro database hBuilt
    unfold buildCatalogStream at hBuilt
    rcases bind_eq_ok.mp hBuilt with ⟨state, hConsume, hSeal⟩
    rcases consume_spec unicode hOpen hConsume with
      ⟨hWrote, hRejected⟩
    rw [hRejected] at hSeal
    exact ⟨state.writer, hWrote, hSeal⟩
  · intro hCooperative hBound hStorable
    rcases
      consume_total unicode hCooperative hBound hOpen hSorted
        (StreamState.new Writer.new) (fun _ _ => rfl)
        ⟨insertable_of_sorted hSorted, hStorable⟩ with
      ⟨state, hConsume⟩
    rcases consume_spec unicode hOpen hConsume with
      ⟨hWrote, hRejected⟩
    refine ⟨state.writer, hWrote, ?_⟩
    intro database hSeal
    unfold buildCatalogStream
    refine bind_eq_ok.mpr ⟨state, hConsume, ?_⟩
    rw [hRejected]
    exact hSeal

theorem writePart_wrote
    {part : CatalogPart}
    (hWrite :
      writePart unicode surroundings generation writer part =
        Except.ok writer') :
    Wrote unicode generation 0 part.documents writer
      writer' := by
  cases part with
  | batch documents => exact writeBatch_wrote unicode hWrite 0
  | oversized document =>
    exact writeOversized_wrote unicode hWrite 0

variable {parts : List CatalogPart}

theorem writeParts_wrote
    (hWrite :
      parts.foldlM (writePart unicode surroundings generation)
        writer = Except.ok writer') :
    Wrote unicode generation 0
      (parts.flatMap CatalogPart.documents) writer
      writer' := by
  induction parts generalizing writer with
  | nil =>
    rw [← pure_eq_ok.mp hWrite]
    exact (compositional_wrote unicode generation).nil 0 writer
  | cons part parts ih =>
    rw [List.foldlM_cons] at hWrite
    rcases bind_eq_ok.mp hWrite with ⟨middle, hFirst, hRest⟩
    rw [List.flatMap_cons]
    exact
      (compositional_wrote unicode generation).append
        (writePart_wrote unicode hFirst)
        (Wrote.of_tables unicode rfl rfl (ih hRest))

theorem writeParts_total
    (hCooperative : surroundings.Cooperative)
    (hGeneration : generation < 2 ^ 63)
    (hNew :
      Insertable writer.tables
        (parts.flatMap CatalogPart.documents))
    (hStorable :
      ∀ document ∈ parts.flatMap CatalogPart.documents,
        Storable document) :
    ∃ writer',
      parts.foldlM (writePart unicode surroundings generation)
        writer = Except.ok writer' := by
  induction parts generalizing writer with
  | nil => exact ⟨writer, rfl⟩
  | cons part parts ih =>
    rw [List.flatMap_cons] at hNew hStorable
    rcases List.forall_mem_append.mp hStorable with
      ⟨hFirst, hRest⟩
    have hPart :
        ∃ middle,
          writePart unicode surroundings generation writer
            part = Except.ok middle := by
      cases part with
      | batch documents =>
        exact
          writeBatch_total unicode hCooperative
            hGeneration _ hNew.left hFirst
      | oversized document =>
        exact
          writeOversized_total unicode hCooperative
            hGeneration _ hNew.left
            (hFirst document (List.mem_singleton_self _))
    rcases hPart with ⟨middle, hMiddle⟩
    rcases writePart_wrote unicode hMiddle hNew.left with
      ⟨_, hSame⟩
    rcases ih (insertable_rest unicode hNew hSame) hRest with
      ⟨last, hLast⟩
    refine ⟨last, ?_⟩
    rw [List.foldlM_cons]
    exact bind_eq_ok.mpr ⟨middle, hMiddle, hLast⟩

theorem buildCatalogParts_agrees
    (rejected : List String)
    (hSorted :
      (parts.flatMap CatalogPart.documents).Pairwise
        (·.uri < ·.uri)) :
    Agrees surroundings generation rejected
      (insertOneByOne unicode generation
        (parts.flatMap CatalogPart.documents))
      (buildCatalogParts unicode surroundings generation
        parts rejected) := by
  refine agrees_of_wrote unicode hSorted ?_ ?_
  · intro database hBuilt
    unfold buildCatalogParts at hBuilt
    rcases bind_eq_ok.mp hBuilt with ⟨writer, hWrite, hSeal⟩
    exact ⟨writer, writeParts_wrote unicode hWrite, hSeal⟩
  · intro hCooperative hBound hStorable
    rcases
      writeParts_total unicode hCooperative hBound
        (insertable_new hSorted) hStorable with
      ⟨writer, hWrite⟩
    refine ⟨writer, writeParts_wrote unicode hWrite, ?_⟩
    intro database hSeal
    exact bind_eq_ok.mpr ⟨writer, hWrite, hSeal⟩

/- Every writer leaves the rows of one-by-one insertion. -/
theorem writers_agree
    (surroundings : Surroundings)
    (generation : Nat)
    (documents : List DocumentSymbols)
    (rejected : List String)
    (hSorted : documents.Pairwise (·.uri < ·.uri)) :
    Agrees surroundings generation rejected
        (insertOneByOne unicode generation documents)
        (buildCatalog surroundings unicode
          ⟨generation, documents, rejected⟩) ∧
      (∀ events,
        CatalogInput.complete ∉ events →
        documentsOf events = documents →
        rejectedOf events = rejected →
          Agrees surroundings generation rejected
            (insertOneByOne unicode generation documents)
            (buildCatalogStream surroundings unicode
              generation (completeStream events))) ∧
      ∀ parts : List CatalogPart,
        parts.flatMap CatalogPart.documents = documents →
          Agrees surroundings generation rejected
            (insertOneByOne unicode generation documents)
            (buildCatalogParts unicode surroundings generation
              parts rejected) := by
  refine ⟨buildCatalog_agrees unicode rejected hSorted, ?_, ?_⟩
  · rintro events hOpen rfl rfl
    exact buildCatalogStream_agrees unicode hOpen hSorted
  · rintro parts rfl
    exact buildCatalogParts_agrees unicode rejected hSorted

/- Nobody cancels and no frame stays in the log. -/
def patient : Surroundings where
  observe := fun _ _ => true
  walCheckpoint := fun _ => ⟨0, 0, 0⟩

/- A document with one symbol and one exported name. -/
def oneClass (uri name : String) : DocumentSymbols where
  uri := uri
  symbols := [⟨name, .class_, uri, ⟨⟨0, 13⟩, ⟨0, 17⟩⟩, none⟩]
  exports :=
    [⟨name, some name, .class_, uri, ⟨⟨0, 13⟩, ⟨0, 17⟩⟩, 0,
      none, none, none, none, true⟩]
  occurrences :=
    [⟨name, uri, ⟨⟨0, 13⟩, ⟨0, 17⟩⟩, some false, none⟩,
      ⟨name, uri, ⟨⟨1, 4⟩, ⟨1, 8⟩⟩, some false, none⟩]
  aliases := []
  bindings := []
  classHeritage := none
  classBindingProvenance := none

/- Both writers accept the two documents. -/
theorem writers_agree_twoClasses :
    let documents :=
      [oneClass "file:///a.ets" "Card",
        oneClass "file:///b.ets" "Page"]
    let rows := insertOneByOne Unicode.ascii 1 documents
    let built :=
      buildCatalog patient Unicode.ascii
        ⟨1, documents, ["file:///c.ets"]⟩
    rows.toBool ∧ built.toBool ∧
      Agrees patient 1 ["file:///c.ets"] rows built :=
  ⟨by decide +kernel, by decide +kernel,
    (writers_agree Unicode.ascii patient 1 _ _
      (by decide +kernel)).1⟩

end Batches

end Store

end ArktsServer
