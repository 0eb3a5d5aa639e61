import HeapScan.Library.Runs
import HeapScan.MessageStore.Basic

/-!
# The commands of a client

A client sends commands of one byte each.  The agent thread polls the socket
once in each round of its flush loop: `checkIncomingMsg` reads everything that
is ready, and `processIncomingMessage` looks at the first byte of it.
-/

namespace HeapScan

open Transition

namespace MsgCode

/-- `FOLLOW_REFERENCE`. -/
def followReference : Char := '1'

/-- `START_GC`. -/
def startGC : Char := '2'

/-- `GET_BASIC_DATA`. -/
def getBasicData : Char := '3'

end MsgCode

/-- The functions of the JVM interface that a command calls. -/
inductive JvmCall where
  | followReference
  | startGC
  | onGetClassMetadata
deriving DecidableEq

/-- The branches of `processIncomingMessage` on a message code. -/
def callOf (msgCode : Char) : Option JvmCall :=
  if msgCode = MsgCode.followReference then some .followReference
  else if msgCode = MsgCode.startGC then some .startGC
  else if msgCode = MsgCode.getBasicData then some .onGetClassMetadata
  else none

/-- The `int` that holds the byte count which `checkIncomingMsg` writes as a `u_long`. -/
def intLength (bufLength : ℕ) : ℤ := (bufLength : ℤ).bmod (2 ^ 32)

/-- `processIncomingMessage` once `checkIncomingMsg` has read `msgBuffer`. -/
def processIncomingMessage (msgBuffer : Text) : Option JvmCall :=
  if intLength msgBuffer.length > 0 then msgBuffer.head?.bind callOf else none

/-- The bytes that `processIncomingMessage` drops unseen. -/
def unseen (msgBuffer : Text) : Text :=
  if intLength msgBuffer.length > 0 then msgBuffer.tail else msgBuffer

/-- The calls that one poll after another makes. -/
def processBatches (batches : List Text) : List JvmCall :=
  batches.flatMap fun msgBuffer => (processIncomingMessage msgBuffer).toList

/-- Every byte in a batch of its own. -/
def singly (bytes : Text) : List Text := bytes.map fun byte => [byte]

section Batches

/-- The commands of a batch are the one that is executed and the ones that are not seen. -/
theorem filterMap_callOf (msgBuffer : Text) :
    msgBuffer.filterMap callOf =
      (processIncomingMessage msgBuffer).toList ++ (unseen msgBuffer).filterMap callOf := by
  unfold processIncomingMessage unseen
  split
  · cases msgBuffer with
    | nil => rfl
    | cons byte rest =>
        simp only [List.head?_cons, Option.bind_some, List.tail_cons, List.filterMap_cons]
        cases callOf byte <;> rfl
  · rfl

/-- Polls that find nothing do not count. -/
@[simp]
theorem processIncomingMessage_nil : processIncomingMessage [] = none := rfl

@[simp]
theorem processIncomingMessage_singleton (byte : Char) :
    processIncomingMessage [byte] = callOf byte := by
  have some_byte : intLength 1 > 0 := by decide
  exact if_pos some_byte

theorem processBatches_singly (bytes : Text) :
    processBatches (singly bytes) = bytes.filterMap callOf := by
  induction bytes with
  | nil => rfl
  | cons byte bytes ih =>
      simp only [processBatches, singly] at ih
      simp only [processBatches, singly, List.map_cons, List.flatMap_cons, ih,
        processIncomingMessage_singleton, List.filterMap_cons]
      cases callOf byte <;> rfl

/-- Whatever is executed was sent, in this order. -/
theorem processBatches_sublist (batches : List Text) :
    (processBatches batches).Sublist (batches.flatten.filterMap callOf) := by
  induction batches with
  | nil => exact List.Sublist.refl _
  | cons msgBuffer batches ih =>
      simp only [processBatches] at ih
      simp only [processBatches, List.flatMap_cons, List.flatten_cons, List.filterMap_append,
        filterMap_callOf msgBuffer, List.append_assoc]
      exact (List.Sublist.refl _).append (ih.trans (List.sublist_append_right _ _))

theorem processBatches_eq_iff (batches : List Text) :
    processBatches batches = batches.flatten.filterMap callOf ↔
      ∀ msgBuffer ∈ batches, ∀ byte ∈ unseen msgBuffer, callOf byte = none := by
  induction batches with
  | nil => simp [processBatches]
  | cons msgBuffer batches ih =>
      have split : (msgBuffer :: batches).flatten.filterMap callOf =
          (processIncomingMessage msgBuffer).toList ++
            ((unseen msgBuffer).filterMap callOf ++ batches.flatten.filterMap callOf) := by
        rw [List.flatten_cons, List.filterMap_append, filterMap_callOf, List.append_assoc]
      have first : processBatches (msgBuffer :: batches) =
          (processIncomingMessage msgBuffer).toList ++ processBatches batches := rfl
      rw [split, first, List.append_cancel_left_eq, List.forall_mem_cons, ← ih,
        ← List.filterMap_eq_nil_iff]
      constructor
      · intro same
        -- What the later batches execute is at most what they contain.
        have bound := (processBatches_sublist batches).length_le
        have lengths := congrArg List.length same
        rw [List.length_append] at lengths
        have none : (unseen msgBuffer).filterMap callOf = [] :=
          List.length_eq_zero_iff.mp (by omega)
        rw [none, List.nil_append] at same
        exact ⟨none, same⟩
      · rintro ⟨none, same⟩
        rw [none, List.nil_append, same]

/--
However the bytes of a client are cut into batches, the calls are those of one
byte at a time, which are the commands in order, exactly when no command is
among the bytes that are dropped unseen.
-/
theorem processBatches_singly_iff (batches : List Text) :
    (processBatches batches = processBatches (singly batches.flatten) ↔
      ∀ msgBuffer ∈ batches, ∀ byte ∈ unseen msgBuffer, callOf byte = none) ∧
    processBatches (singly batches.flatten) = batches.flatten.filterMap callOf := by
  rw [processBatches_singly]
  exact ⟨processBatches_eq_iff batches, rfl⟩

/-- Two commands in one batch: the garbage collection is never started. -/
theorem second_command_dropped :
    processBatches [['1', '2']] = [.followReference] ∧
    processBatches (singly ['1', '2']) = [.followReference, .startGC] ∧
    ¬processBatches [['1', '2']] = processBatches (singly [['1', '2']].flatten) := by
  decide

end Batches

/-- The bytes that have arrived and are not read yet, and the calls made so far. -/
structure Incoming where
  ready : Text
  called : List JvmCall

inductive IncomingEvent where
  /-- Bytes of the client arrive. -/
  | arrive (bytes : Text)
  /-- The agent thread polls, and FIONREAD reports `bufLength` bytes. -/
  | poll (bufLength : ℕ)

namespace Incoming

def initial : Incoming where
  ready := []
  called := []

/-- FIONREAD reports no more than has arrived, and `recv` takes what was reported. -/
def step (state : Incoming) : IncomingEvent → Option Incoming
  | .arrive bytes => some { state with ready := state.ready ++ bytes }
  | .poll bufLength =>
      if bufLength ≤ state.ready.length then
        let msgBuffer := state.ready.take bufLength
        some
          { ready := state.ready.drop bufLength
            called := state.called ++ (processIncomingMessage msgBuffer).toList }
      else none

/-- All bytes that the events bring. -/
def sent : List IncomingEvent → Text
  | [] => []
  | .arrive bytes :: events => bytes ++ sent events
  | .poll _ :: events => sent events

/-- A run of polls cuts the bytes that were sent into the batches it processes. -/
theorem exists_batches {state final : Incoming} {events : List IncomingEvent}
    (run : runFrom step state events = some final) :
    ∃ batches, state.ready ++ sent events = batches.flatten ++ final.ready ∧
      final.called = state.called ++ processBatches batches := by
  induction events generalizing state with
  | nil =>
      simp only [runFrom_nil, Option.some.injEq] at run
      exact ⟨[], by simp [run, sent], by simp [run, processBatches]⟩
  | cons event events ih =>
      rcases runFrom_cons_eq_some.mp run with ⟨next, stepped, rest⟩
      rcases ih rest with ⟨batches, cut, called⟩
      cases event with
      | arrive bytes =>
          cases stepped
          exact ⟨batches, by rw [← cut, sent, List.append_assoc], called⟩
      | poll bufLength =>
          simp only [step] at stepped
          split at stepped <;> cases stepped
          refine ⟨state.ready.take bufLength :: batches, ?_, ?_⟩
          · rw [List.flatten_cons, List.append_assoc, ← cut, ← List.append_assoc,
              List.take_append_drop, sent]
          · rw [called, List.append_assoc]
            rfl

/-- Each batch arriving just before it is polled is a run, so every cut occurs. -/
theorem run_batches (batches : List Text) (called : List JvmCall) :
    runFrom step { ready := [], called }
      (batches.flatMap fun msgBuffer => [.arrive msgBuffer, .poll msgBuffer.length]) =
      some { ready := [], called := called ++ processBatches batches } := by
  induction batches generalizing called with
  | nil => simp [processBatches]
  | cons msgBuffer batches ih =>
      have polled := ih (called ++ (processIncomingMessage msgBuffer).toList)
      simp only [List.flatMap_cons, List.cons_append, List.nil_append, runFrom, step,
        Option.bind_some, Nat.le_refl, if_true, List.take_length, List.drop_length]
      rw [polled, List.append_assoc]
      rfl

end Incoming

end HeapScan
