import OmiLocal.Lib.Text
import Mathlib.Logic.Function.Basic

/-!
# The translation coordinator

`TranslationCoordinator`, at most one await in a step. A call of `observe` treats its updates one
by one and a batch delivers its units one by one; other tasks may run in between. What the
language gate and the classifier make of an update comes with the update, and the batch timer may
fire at any time.
-/
namespace OmiLocal.Translation.Cloud
open Lib.Text

inductive TranslationNeed where
  | skip
  | translate
  | defer
  deriving DecidableEq

/-- An updated segment. `skipMono` is that the language gate skips it and does not probe. -/
structure Update where
  id : String
  text : String
  skipMono : Bool
  need : TranslationNeed
  deriving DecidableEq

/-- `object` tells a state from another that was later created for the same segment. -/
structure SegmentState where
  object : Nat
  committedText : String
  latestText : String
  assembledTranslation : Option String
  detectedLang : Option String
  version : Nat
  deriving DecidableEq

/-- An entry of the batch buffer. -/
structure Queued where
  segmentId : String
  text : String
  conversationId : String
  version : Nat
  deriving DecidableEq

inductive TranslationStatus where
  | translated
  | unchanged
  | failed
  deriving DecidableEq

structure TranslationOutcome where
  status : TranslationStatus
  text : String
  detectedLanguage : String
  deriving DecidableEq

/-- Where a call of `_flush_batch` waits: for the provider, between two units, or for the negative cache. -/
inductive Flight where
  | translating (units : List Queued)
  | delivering (rest : List (TranslationOutcome × Queued))
  | caching (object : Nat) (unit : Queued) (rest : List (TranslationOutcome × Queued))
  deriving DecidableEq

/-- Where the call of `observe` waits: between two updates, for the cached translation of a changed text,
or for the negative cache or its caller. -/
inductive Observing where
  | idle
  | updating (rest : List Update) (conversationId : String)
  | reading (update : Update) (object : Nat) (rest : List Update) (conversationId : String)
  | awaiting (rest : List Update) (conversationId : String)
  deriving DecidableEq

/-- A call of `on_translation_ready`, with the text that was translated and the text that the segment
had been observed with, if it had not been removed. -/
structure Ready where
  segmentId : String
  source : String
  translatedText : String
  detectedLang : String
  conversationId : String
  observed : Option String
  deriving DecidableEq

/-- `observed`, `handed` (what went to the provider) and `ready` are history. -/
structure Coordinator where
  segmentStates : String → Option SegmentState
  versionCounter : Nat
  objects : Nat
  batchBuffer : List Queued
  flights : List Flight
  observing : Observing
  flushing : Bool
  active : Bool
  observed : String → Option String
  handed : List Queued
  ready : List Ready

def start : Coordinator where
  segmentStates := fun _ => none
  versionCounter := 0
  objects := 0
  batchBuffer := []
  flights := []
  observing := .idle
  flushing := false
  active := true
  observed := fun _ => none
  handed := []
  ready := []

def startsWith (text front : String) : Bool := front.toList.isPrefixOf text.toList

/-- `text[len(front):].strip()`. -/
def restOf (text front : String) : String := strip (String.ofList (text.toList.drop front.toList.length))

/-- Its later checks both answer `False`. -/
def shouldPersistTranslation (source translated : String) : Bool :=
  decide (join ' ' (words source.toList) ≠ join ' ' (words translated.toList))

variable (inTargetLanguage : String → Bool)

/-! ## Segment states -/

/-- A change to a state object, which may have been dropped or replaced. -/
def modify (c : Coordinator) (id : String) (object : Nat) (f : SegmentState → SegmentState) : Coordinator :=
  { c with
    segmentStates := fun j =>
      if j = id then (c.segmentStates id).map fun state => if state.object = object then f state else state
      else c.segmentStates j }

def getOrCreate (c : Coordinator) (id : String) : Coordinator × SegmentState :=
  match c.segmentStates id with
  | some state => (c, state)
  | none =>
      let state : SegmentState := ⟨c.objects, "", "", none, none, 0⟩
      ({ c with objects := c.objects + 1, segmentStates := Function.update c.segmentStates id (some state) }, state)

def invalidate (c : Coordinator) (id : String) (object : Nat) : Coordinator :=
  let version := c.versionCounter + 1
  { modify c id object (fun state => { state with version := version }) with
    versionCounter := version
    batchBuffer := c.batchBuffer.filter fun entry => decide (entry.segmentId ≠ id) }

def queueTranslation (c : Coordinator) (id : String) (object : Nat) (text conversationId : String) : Coordinator :=
  let version := c.versionCounter + 1
  { modify c id object (fun state => { state with version := version }) with
    versionCounter := version
    batchBuffer := c.batchBuffer ++ [⟨id, text, conversationId, version⟩] }

/-! ## Observing -/

/-- `_observe_segment` after the prefix was reconciled; `committed` is the committed text then. -/
def settle (c : Coordinator) (u : Update) (text : String) (object : Nat) (committed : String) (rest : List Update)
    (conversationId : String) : Coordinator :=
  let newText := if committed ≠ "" then restOf text committed else text
  let c := modify c u.id object fun state => { state with latestText := text }
  if newText = "" then { c with observing := .updating rest conversationId }
  else if u.skipMono ∨ u.need = .skip then
    { modify c u.id object (fun state => { state with committedText := text }) with
      observing := .awaiting rest conversationId }
  else if u.need = .defer then { c with observing := .updating rest conversationId }
  else { queueTranslation c u.id object text conversationId with observing := .updating rest conversationId }

/-- `_observe_segment` up to its first await. -/
def observeSegment (c : Coordinator) (u : Update) (rest : List Update) (conversationId : String) : Coordinator :=
  let text := strip u.text
  if u.id = "" then { c with observing := .updating rest conversationId }
  else
    let c := { c with observed := Function.update c.observed u.id (some text) }
    if text = "" then { c with observing := .updating rest conversationId }
    else
      let (c, state) := getOrCreate c u.id
      if state.committedText ≠ "" ∧ startsWith text state.committedText = false then
        { invalidate c u.id state.object with observing := .reading u state.object rest conversationId }
      else settle c u text state.object state.committedText rest conversationId

def adoptCachedPrefix (c : Coordinator) (id : String) (object : Nat) (text translatedText detectedLang : String) :
    Coordinator :=
  modify c id object fun state =>
    { state with
      committedText := text
      assembledTranslation := some translatedText
      detectedLang := some detectedLang
      latestText := text }

def notify (c : Coordinator) (id source translatedText detectedLang conversationId : String) : Coordinator :=
  { c with ready := c.ready ++ [⟨id, source, translatedText, detectedLang, conversationId, c.observed id⟩] }

/-- `_reconcile_changed_prefix` with what the cache has for the text. -/
def cacheRead (c : Coordinator) (cached : Option (String × String)) : Coordinator :=
  match c.observing with
  | .reading u object rest conversationId =>
      let text := strip u.text
      match cached with
      | none =>
          let c := modify c u.id object fun state =>
            { state with committedText := "", assembledTranslation := none, detectedLang := none }
          settle c u text object "" rest conversationId
      | some (translatedText, detectedLang) =>
          if shouldPersistTranslation text translatedText then
            let c := adoptCachedPrefix c u.id object text translatedText detectedLang
            { notify c u.id text translatedText detectedLang conversationId with
              observing := .awaiting rest conversationId }
          else
            { adoptCachedPrefix (invalidate c u.id object) u.id object text translatedText detectedLang with
              observing := .updating rest conversationId }
  | _ => c

def observe (c : Coordinator) (updatedSegments : List Update) (removedIds : List String) (conversationId : String) :
    Coordinator :=
  if !c.active && !c.flushing then c
  else
    { c with
      segmentStates := fun id => if id ∈ removedIds then none else c.segmentStates id
      observed := fun id => if id ∈ removedIds then none else c.observed id
      observing := .updating updatedSegments conversationId }

/-- The next update, or the end of the call. -/
def nextUpdate (c : Coordinator) : Coordinator :=
  match c.observing with
  | .updating [] _ => { c with observing := .idle }
  | .updating (u :: rest) conversationId => observeSegment c u rest conversationId
  | .awaiting rest conversationId => { c with observing := .updating rest conversationId }
  | _ => c

/-! ## Batches -/

/-- `_flush_batch` up to the provider. -/
def flushBatch (c : Coordinator) : Coordinator :=
  let validUnits := c.batchBuffer.filter fun q => decide ((c.segmentStates q.segmentId).map SegmentState.version = some q.version)
  if validUnits = [] then { c with batchBuffer := [] }
  else
    { c with
      batchBuffer := []
      flights := c.flights ++ [.translating validUnits]
      handed := c.handed ++ validUnits }

/-- One outcome. The result is what the batch does next. -/
def deliver (c : Coordinator) (outcome : TranslationOutcome) (q : Queued) (rest : List (TranslationOutcome × Queued)) :
    Coordinator × Flight :=
  match c.segmentStates q.segmentId with
  | none => (c, .delivering rest)
  | some state =>
      if state.version ≠ q.version ∨ outcome.status = .failed then (c, .delivering rest)
      else if shouldPersistTranslation q.text outcome.text then
        let c := modify c q.segmentId state.object fun state =>
          { state with
            committedText := q.text
            assembledTranslation := some outcome.text
            detectedLang := some outcome.detectedLanguage }
        (notify c q.segmentId q.text outcome.text outcome.detectedLanguage q.conversationId, .delivering rest)
      else if outcome.status = .unchanged then
        if inTargetLanguage outcome.detectedLanguage then (c, .caching state.object q rest)
        else (modify c q.segmentId state.object fun state => { state with committedText := q.text }, .delivering rest)
      else (c, .delivering rest)

/-- The provider answers. A wrong number of outcomes is a `RuntimeError`. -/
def translated (c : Coordinator) (i : Nat) (outcomes : List TranslationOutcome) : Coordinator :=
  match c.flights[i]? with
  | some (.translating units) =>
      if outcomes.length = units.length then { c with flights := c.flights.set i (.delivering (outcomes.zip units)) }
      else { c with flights := c.flights.eraseIdx i }
  | _ => c

/-- The batch goes on with its next unit, or after the negative cache. -/
def resumeBatch (c : Coordinator) (i : Nat) : Coordinator :=
  match c.flights[i]? with
  | some (.delivering []) => { c with flights := c.flights.eraseIdx i }
  | some (.delivering ((outcome, q) :: rest)) =>
      let (c, flight) := deliver inTargetLanguage c outcome q rest
      { c with flights := c.flights.set i flight }
  | some (.caching object q rest) =>
      { modify c q.segmentId object (fun state => { state with committedText := q.text }) with
        flights := c.flights.set i (.delivering rest) }
  | _ => c

/-! ## Merges and the end -/

def handleSegmentMerge (c : Coordinator) (removedId survivingId : String) : Coordinator :=
  let removed := c.segmentStates removedId
  let dropped : Coordinator :=
    { c with
      segmentStates := Function.update c.segmentStates removedId none
      observed := Function.update c.observed removedId none }
  match removed, dropped.segmentStates survivingId with
  | some _, some state =>
      { dropped with
        segmentStates := Function.update dropped.segmentStates survivingId
          (some { state with committedText := "", assembledTranslation := none }) }
  | _, _ => dropped

/-! ## Runs -/

/-- `flush` and `flushEnded` are the ends of a call of `flush`; the `Raised` actions are errors at an await. -/
inductive Action where
  | observe (updatedSegments : List Update) (removedIds : List String) (conversationId : String)
  | nextUpdate
  | cacheRead (cached : Option (String × String))
  | observeRaised
  | flushBatch
  | translated (i : Nat) (outcomes : List TranslationOutcome)
  | resumeBatch (i : Nat)
  | batchRaised (i : Nat)
  | handleSegmentMerge (removedId survivingId : String)
  | flush
  | flushEnded

def Action.enabled (c : Coordinator) : Action → Bool
  | .observe _ _ _ => decide (c.observing = .idle)
  | .flushEnded => c.flushing
  | _ => true

def Action.apply (c : Coordinator) : Action → Coordinator
  | .observe updatedSegments removedIds conversationId => Cloud.observe c updatedSegments removedIds conversationId
  | .nextUpdate => Cloud.nextUpdate c
  | .cacheRead cached => Cloud.cacheRead c cached
  | .observeRaised => { c with observing := .idle }
  | .flushBatch => Cloud.flushBatch c
  | .translated i outcomes => Cloud.translated c i outcomes
  | .resumeBatch i => Cloud.resumeBatch inTargetLanguage c i
  | .batchRaised i => { c with flights := c.flights.eraseIdx i }
  | .handleSegmentMerge removedId survivingId => Cloud.handleSegmentMerge c removedId survivingId
  | .flush => Cloud.flushBatch { c with flushing := true }
  | .flushEnded => { c with segmentStates := fun _ => none, flushing := false, active := false }

def act (c : Coordinator) (a : Action) : Option Coordinator :=
  if a.enabled c then some (a.apply inTargetLanguage c) else none

end OmiLocal.Translation.Cloud
