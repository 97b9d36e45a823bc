import Mathlib.Data.Finset.Basic
import ArktsServer.Lib.Saturation
import ArktsServer.Core.BindingSources

/-
  The identity proof of a reference search.

  `proveReferenceBindingChain` follows import and re-export
  bindings outwards from one declaration.  A first loop
  collects the bindings that may lead to the declaration; a
  second loop colours bindings as proven or disjoint.  The
  exits differ for default and for named exports.

  The hash maps from a URI to a set of names are sets of
  pairs; the index sets are finite sets of positions in the
  binding list.

  Key definitions include:
    * `ChainInput`
    * `possibleLoop`
    * `classifyBinding`, `classifyLoop`
    * `proveReferenceBindingChain`
-/

----------
-- Inputs
----------

namespace ArktsServer

namespace BindingChain

/- Names by document URI. -/
abbrev NameMap := Finset (String × String)

/- The arguments of the identity proof. -/
structure ChainInput where
  bindings : List ReferenceBinding
  occurrences : List ReferenceOccurrenceIdentity
  independentDeclarations : NameMap
  declarationUri : String
  declarationName : String
  referenceExportName : String
  limit : Nat

namespace ChainInput

/- Every URI that the arguments mention as a document. -/
def knownUris (input : ChainInput) : List String :=
  input.occurrences.map (·.uri) ++
    input.bindings.map (·.uri) ++
    [input.declarationUri]

/- A URI is known as a document of the search. -/
def IsKnown (input : ChainInput) (uri : String) : Prop :=
  uri ∈ input.knownUris ∨
    ∃ entry ∈ input.independentDeclarations, entry.1 = uri

instance
    (input : ChainInput)
    (uri : String) :
    Decidable (input.IsKnown uri) := by
  unfold IsKnown
  infer_instance

end ChainInput

----------
-- Possible Bindings
----------

/- The state of the first loop. -/
structure PossibleState where
  possibleExports : NameMap
  possibleBindings : Finset Nat
deriving DecidableEq

variable (input : ChainInput)

/-
  A binding whose source cannot be located at all may still
  denote the declaration.
-/
def seedsPossible
    (binding : ReferenceBinding) : Bool :=
  (decide (binding.sourceResolution = .unsupported) ||
      decide (binding.sourceResolution = .unresolved)) &&
    !validSdkModuleSpecifier binding.sourceSpecifier &&
    (relativeSourceUriCandidates binding.uri
      binding.sourceSpecifier).isNone &&
    (decide (input.referenceExportName ≠ "default") ||
      decide (binding.importedName =
        input.referenceExportName) ||
      decide (binding.localName = input.declarationName))

variable (binding : ReferenceBinding)

/- Add the export that a re-export contributes. -/
def addReExport
    (exports : NameMap) : NameMap :=
  if binding.kind = .reExport then
    insert (binding.uri, binding.localName) exports
  else
    exports

/- The initial possible bindings and their exports. -/
def possibleInitial (input : ChainInput) : PossibleState :=
  let seeds :=
    input.bindings.zipIdx.filter
      (fun entry => seedsPossible input entry.1)
  { possibleExports :=
      seeds.foldl
        (fun exports entry => addReExport entry.1 exports)
        {(input.declarationUri, input.referenceExportName)}
    possibleBindings := (seeds.map (·.2)).toFinset }

/- Whether a binding may read a possible export. -/
def sourceIsPossible
    (exports : NameMap)
    (binding : ReferenceBinding) : Bool :=
  match binding.sourceResolution with
  | .unique =>
      match binding.resolvedSourceUri with
      | some uri =>
          decide ((uri, binding.importedName) ∈ exports)
      | none => false
  | .ambiguous =>
      match relativeSourceUriCandidates binding.uri
          binding.sourceSpecifier with
      | some candidates =>
          candidates.any fun uri =>
            decide ((uri, binding.importedName) ∈ exports)
      | none => false
  | _ => false

def possibleStep
    (state : PossibleState)
    (entry : ReferenceBinding × Nat) : PossibleState :=
  if sourceIsPossible state.possibleExports entry.1 then
    { possibleExports :=
        addReExport entry.1 state.possibleExports
      possibleBindings :=
        insert entry.2 state.possibleBindings }
  else
    state

/- The first loop, with one sweep per binding and one more. -/
def possibleLoop (input : ChainInput) : PossibleState :=
  Saturation.saturate possibleStep
    (·.possibleBindings.card) input.bindings.zipIdx
    (input.bindings.length + 1) (possibleInitial input)

----------
-- Classification
----------

/- The state of the second loop. -/
structure Classification where
  provenOccurrences : NameMap
  provenExports : NameMap
  disjointOccurrences : NameMap
  disjointExports : NameMap
  externalQualifiers : NameMap
  reachedBindings : Finset Nat
  provenBindingUris : OrderedSet String
deriving DecidableEq

def classifyInitial (input : ChainInput) :
    Classification where
  provenOccurrences :=
    {(input.declarationUri, input.declarationName),
      (input.declarationUri, input.referenceExportName)}
  provenExports :=
    {(input.declarationUri, input.referenceExportName)}
  disjointOccurrences := input.independentDeclarations
  disjointExports := input.independentDeclarations
  externalQualifiers := ∅
  reachedBindings := ∅
  provenBindingUris := OrderedSet.empty

/- The names a binding introduces in its document. -/
def recordOccurrences
    (occurrences : NameMap) : NameMap :=
  insert (binding.uri, binding.localName)
    (insert (binding.uri, binding.importedName) occurrences)

variable (state : Classification)

/- Reach a binding in the disjoint colour. -/
def Classification.recordDisjoint
    (index : Nat) : Classification :=
  { state with
    disjointOccurrences :=
      recordOccurrences binding state.disjointOccurrences
    disjointExports :=
      addReExport binding state.disjointExports
    reachedBindings := insert index state.reachedBindings }

/- Reach a binding in the proven colour. -/
def Classification.recordProven
    (index : Nat) : Classification :=
  { state with
    provenOccurrences :=
      recordOccurrences binding state.provenOccurrences
    provenExports :=
      addReExport binding state.provenExports
    reachedBindings := insert index state.reachedBindings
    provenBindingUris :=
      state.provenBindingUris.insert binding.uri }

/- Reach a binding to an external module. -/
def Classification.recordExternal
    (index : Nat) : Classification :=
  { state.recordDisjoint binding index with
    externalQualifiers :=
      insert (binding.uri, binding.localName)
        state.externalQualifiers }

def isExternal (binding : ReferenceBinding) : Bool :=
  decide (binding.sourceResolution = .external) &&
    binding.externalTerminalIdentity.isSome

/- An import whose relative source is not indexed. -/
def isMissingImport (binding : ReferenceBinding) : Bool :=
  decide (binding.kind = .import_) &&
    decide (binding.sourceResolution = .unresolved) &&
    (relativeSourceUriCandidates binding.uri
      binding.sourceSpecifier).isSome

/-
  One visit of the second loop.  A binding whose source is
  an export of both colours, or of neither, is passed over.
-/
def classifyBinding
    (possibleBindings : Finset Nat)
    (state : Classification)
    (entry : ReferenceBinding × Nat) : Classification :=
  let (binding, index) := entry
  if isExternal binding then
    state.recordExternal binding index
  else if isMissingImport binding then
    state.recordDisjoint binding index
  else if binding.sourceResolution = .ambiguous ∧
      index ∉ possibleBindings then
    state.recordDisjoint binding index
  else
    match binding.resolvedSourceUri with
    | none => state
    | some sourceUri =>
        if binding.sourceResolution ≠ .unique then
          state
        else if ¬ input.IsKnown sourceUri then
          state.recordDisjoint binding index
        else
          let sourceIsProven :=
            decide ((sourceUri, binding.importedName) ∈
              state.provenExports)
          let sourceIsDisjoint :=
            decide ((sourceUri, binding.importedName) ∈
              state.disjointExports)
          if sourceIsProven = sourceIsDisjoint then
            state
          else if sourceIsProven then
            state.recordProven binding index
          else
            state.recordDisjoint binding index

def classifyLoop
    (possibleBindings : Finset Nat) : Classification :=
  Saturation.saturate (classifyBinding input possibleBindings)
    (·.reachedBindings.card) input.bindings.zipIdx
    (input.bindings.length + 1) (classifyInitial input)

----------
-- Exits
----------

/- The exit for a default export. -/
def defaultExit
    (possibleBindings : Finset Nat)
    (state : Classification) :
    Bool × List String × List String :=
  let identityUris :=
    state.provenBindingUris.insert input.declarationUri
  let unreached :=
    input.bindings.zipIdx.filter fun entry =>
      decide (entry.2 ∈ possibleBindings ∧
        entry.2 ∉ state.reachedBindings)
  let narrowed :=
    unreached.foldl
      (fun uris entry => uris.insert entry.1.uri)
      identityUris
  let identityComplete :=
    decide (possibleBindings ⊆ state.reachedBindings)
  let narrowedUris :=
    if narrowed.length ≤ input.limit then
      narrowed.toList
    else
      []
  if !identityComplete ||
      decide (input.limit < identityUris.length) then
    (false, [], narrowedUris)
  else
    (true, identityUris.toList, narrowedUris)

def occurrenceIsProven
    (occurrence : ReferenceOccurrenceIdentity) : Bool :=
  decide ((occurrence.uri, occurrence.name) ∈
    state.provenOccurrences)

/-
  Unqualified occurrences are disjoint by name, qualified
  ones by an external qualifier.
-/
def occurrenceIsDisjoint
    (state : Classification)
    (occurrence : ReferenceOccurrenceIdentity) : Bool :=
  decide (occurrence.qualified = some false) &&
      decide ((occurrence.uri, occurrence.name) ∈
        state.disjointOccurrences) ||
    decide ((occurrence.uri, occurrence.name) ∈
        input.independentDeclarations) &&
      decide (occurrence.qualified = some false) ||
    decide (occurrence.qualified = some true) &&
      match occurrence.qualifier with
      | some qualifier =>
          decide ((occurrence.uri, qualifier) ∈
            state.externalQualifiers)
      | none => false

/- The exit for a named export. -/
def namedExit
    (state : Classification) :
    Bool × List String × List String :=
  let classified :=
    decide (state.reachedBindings.card =
      input.bindings.length) &&
      input.occurrences.all fun occurrence =>
        occurrenceIsProven state occurrence ||
          occurrenceIsDisjoint input state occurrence
  let identityUris :=
    OrderedSet.ofList
      ((input.occurrences.filter
        (occurrenceIsProven state)).map (·.uri))
  let allUris :=
    (OrderedSet.ofList
      (input.occurrences.map (·.uri))).insert
        input.declarationUri
  let narrowed :=
    (OrderedSet.ofList
      ((input.occurrences.filter
        (fun occurrence =>
          !occurrenceIsDisjoint input state occurrence)).map
        (·.uri))).insert input.declarationUri
  let narrowedUris :=
    if narrowed.length < allUris.length ∧
        narrowed.length ≤ input.limit then
      narrowed.toList
    else
      []
  if !classified ||
      decide (input.limit < identityUris.length) then
    (false, [], narrowedUris)
  else
    (true, identityUris.toList, narrowedUris)

/-
  Whether the identity is complete, the documents of the
  identity, and the documents that remain candidates.
-/
def proveReferenceBindingChain (input : ChainInput) :
    Bool × List String × List String :=
  let possibleBindings :=
    (possibleLoop input).possibleBindings
  let state := classifyLoop input possibleBindings
  if input.referenceExportName = "default" then
    defaultExit input possibleBindings state
  else
    namedExit input state

end BindingChain

end ArktsServer
