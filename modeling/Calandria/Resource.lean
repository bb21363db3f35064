/-
The bounded resource table.

A slot is vacant at the generation of its next token, occupied, or exhausted for
good.  The vector of slots has a fixed length, so it is a function on the
positions below the capacity; its searches go through them in order.
-/
import Calandria.TransitionSystem
import Calandria.Time
import Calandria.FixedVector

namespace Calandria

abbrev ResourceOwnerId := U64

abbrev ResourceSlotId := U64

abbrev ResourceGeneration := U64

/-- `ResourceGeneration::checked_next`. -/
def ResourceGeneration.checkedNext (generation : ResourceGeneration) : Option ResourceGeneration :=
  U64.checkedAdd generation 1

/-- Exact identity for one admitted resource generation. -/
structure ResourceToken where
  owner : ResourceOwnerId
  slot : ResourceSlotId
  generation : ResourceGeneration
  deriving DecidableEq

/-- Why a resource could not enter a bounded owner-local table. -/
inductive ResourceAdmissionFailure
  | identityInUse
  | capacityReached (limit : NonZeroUsize)
  | tokenSpaceExhausted
  deriving DecidableEq

/-- Failed resource admission preserving both supplied values. -/
structure ResourceAdmissionError (K R : Type) where
  identity : K
  resource : R
  failure : ResourceAdmissionFailure

/-- Why a resource token cannot name a current live resource. -/
inductive ResourceTokenFailure
  | ownerMismatch (expected actual : ResourceOwnerId)
  | slotOutOfBounds (slot : ResourceSlotId) (capacity : NonZeroUsize)
  | vacant (slot : ResourceSlotId) (generation : ResourceGeneration)
  | generationMismatch (slot : ResourceSlotId) (current supplied : ResourceGeneration)
  | exhausted (slot : ResourceSlotId)
  deriving DecidableEq

/-- Current bounded slot state for one resource owner. -/
structure ResourceTableSnapshot where
  owner : ResourceOwnerId
  capacity : NonZeroUsize
  active : U64
  vacant : U64
  exhausted : U64
  deriving DecidableEq

namespace Resource

/-- The internal panic sites of the table. -/
inductive Panic
  /-- "resource table active count overflowed" -/
  | activeOverflow
  /-- "validated resource slot changed without an owner turn" -/
  | validatedChanged
  /-- "resource table active count underflowed" -/
  | activeUnderflow
  /-- "resource exhausted count overflowed" -/
  | exhaustedOverflow
  /-- "resource slot accounting overflowed" -/
  | accountingOverflow
  /-- "resource slot accounting diverged" -/
  | accountingDiverged
  deriving DecidableEq

/-! ### Slots -/

inductive Slot (K R : Type)
  | vacant (generation : ResourceGeneration)
  | occupied (generation : ResourceGeneration) (identity : K) (resource : R)
  | exhausted

namespace Slot

variable {K R : Type}

def isVacant : Slot K R → Bool
  | .vacant _ => true
  | _ => false

def isOccupied : Slot K R → Bool
  | .occupied _ _ _ => true
  | _ => false

def isExhausted : Slot K R → Bool
  | .exhausted => true
  | _ => false

/-- The generation of the live token, or of the next one. -/
def standing : Slot K R → Option ResourceGeneration
  | .vacant generation | .occupied generation _ _ => some generation
  | .exhausted => none

/-- `token_failure`. -/
def tokenFailure (slot : Slot K R) (token : ResourceToken) : ResourceTokenFailure :=
  match slot with
  | .vacant generation => .vacant token.slot generation
  | .occupied generation _ _ => .generationMismatch token.slot generation token.generation
  | .exhausted => .exhausted token.slot

end Slot

/-- A position in the vector of slots. -/
abbrev Index (capacity : NonZeroUsize) := Fin capacity.get.val

/-- `slot_id`. -/
def slotId {capacity : NonZeroUsize} (index : Index capacity) : ResourceSlotId :=
  ⟨index.val, index.isLt.trans capacity.get.isLt⟩

theorem slotId_injective {capacity : NonZeroUsize} {k k' : Index capacity}
    (h : slotId k = slotId k') : k = k' :=
  Fin.ext (show k.val = k'.val from congrArg (fun slot : U64 => slot.val) h)

/-- Bounded owner-local resource slots fenced by monotonic generations. -/
structure ResourceTable (capacity : NonZeroUsize) (K R : Type) where
  owner : ResourceOwnerId
  slots : Index capacity → Slot K R
  active : U64
  exhausted : U64

namespace ResourceTable

variable {capacity : NonZeroUsize} {K R : Type}

/-! ### The operations -/

/-- Creates empty slots beginning at an explicit generation floor. -/
def startingAt (capacity : NonZeroUsize) (owner : ResourceOwnerId)
    (generation : ResourceGeneration) : ResourceTable capacity K R :=
  ⟨owner, fun _ => .vacant generation, 0, 0⟩

def setSlot (table : ResourceTable capacity K R) (index : Index capacity) (slot : Slot K R) :
    ResourceTable capacity K R :=
  { table with slots := Function.update table.slots index slot }

theorem setSlot_slots_self (table : ResourceTable capacity K R) (k : Index capacity)
    (slot : Slot K R) : (table.setSlot k slot).slots k = slot :=
  Function.update_self ..

theorem setSlot_slots_of_ne (table : ResourceTable capacity K R) {j k : Index capacity}
    (slot : Slot K R) (h : j ≠ k) : (table.setSlot k slot).slots j = table.slots j :=
  Function.update_of_ne h ..

def token (table : ResourceTable capacity K R) (index : Index capacity)
    (generation : ResourceGeneration) : ResourceToken :=
  ⟨table.owner, slotId index, generation⟩

/-- Iterates over live tokens, identities, and resources. -/
def iter (table : ResourceTable capacity K R) : List (ResourceToken × K × R) :=
  (List.finRange capacity.get.val).filterMap fun index =>
    match table.slots index with
    | .occupied generation identity resource =>
      some (table.token index generation, identity, resource)
    | .vacant _ | .exhausted => none

/-- Whether a live resource owns `identity`. -/
def containsIdentity [BEq K] (table : ResourceTable capacity K R) (identity : K) : Bool :=
  (List.finRange capacity.get.val).any fun index =>
    match table.slots index with
    | .occupied _ current _ => current == identity
    | .vacant _ | .exhausted => false

def nextVacant (table : ResourceTable capacity K R) :
    Option (Index capacity × ResourceGeneration) :=
  (List.finRange capacity.get.val).findSome? fun index =>
    match table.slots index with
    | .vacant generation => some (index, generation)
    | .occupied _ _ _ | .exhausted => none

/-- Admits one unique identity and returns its exact generation token. -/
def admitResource [BEq K] (table : ResourceTable capacity K R) (identity : K) (resource : R) :
    Except Panic (ResourceTable capacity K R ×
      Except (ResourceAdmissionError K R) ResourceToken) :=
  if table.containsIdentity identity then
    .ok (table, .error ⟨identity, resource, .identityInUse⟩)
  else if table.active = capacity.get then
    .ok (table, .error ⟨identity, resource, .capacityReached capacity⟩)
  else
    match table.nextVacant with
    | none => .ok (table, .error ⟨identity, resource, .tokenSpaceExhausted⟩)
    | some (index, generation) =>
      let table' := table.setSlot index (.occupied generation identity resource)
      match table'.active.checkedAdd 1 with
      | none => .error .activeOverflow
      | some active => .ok ({ table' with active }, .ok (table.token index generation))

/-- Returns the current token for one exact live identity. -/
def tokenFor [BEq K] (table : ResourceTable capacity K R) (identity : K) : Option ResourceToken :=
  (List.finRange capacity.get.val).findSome? fun index =>
    match table.slots index with
    | .occupied generation current _ =>
      if current == identity then some (table.token index generation) else none
    | .vacant _ | .exhausted => none

def validateOwnerAndSlot (table : ResourceTable capacity K R) (token : ResourceToken) :
    Except ResourceTokenFailure (Index capacity) :=
  if token.owner ≠ table.owner then .error (.ownerMismatch table.owner token.owner)
  -- a slot number always fits in a 64-bit `usize`
  else if h : token.slot.val < capacity.get.val then .ok ⟨token.slot.val, h⟩
  else .error (.slotOutOfBounds token.slot capacity)

def validateToken (table : ResourceTable capacity K R) (token : ResourceToken) :
    Except ResourceTokenFailure (Index capacity) := do
  let index ← table.validateOwnerAndSlot token
  match table.slots index with
  | .occupied generation identity resource =>
    if generation = token.generation then .ok index
    else .error ((Slot.occupied generation identity resource).tokenFailure token)
  | slot => .error (slot.tokenFailure token)

/-- Borrows the exact live identity and resource named by `token`. -/
def get (table : ResourceTable capacity K R) (token : ResourceToken) :
    Except ResourceTokenFailure (K × R) := do
  let index ← table.validateOwnerAndSlot token
  match table.slots index with
  | .occupied generation identity resource =>
    if generation = token.generation then .ok (identity, resource)
    else .error ((Slot.occupied generation identity resource).tokenFailure token)
  | slot => .error (slot.tokenFailure token)

/-- Mutably borrows the exact live resource named by `token`, and writes to it. -/
def getMut (table : ResourceTable capacity K R) (token : ResourceToken) (write : R → R) :
    ResourceTable capacity K R × Except ResourceTokenFailure (K × R) :=
  match table.validateToken token with
  | .error failure => (table, .error failure)
  | .ok index =>
    match table.slots index with
    | .occupied generation identity resource =>
      (table.setSlot index (.occupied generation identity (write resource)),
        .ok (identity, resource))
    | slot => (table, .error (slot.tokenFailure token))

/-- Removes the exact live generation and returns both owned values. -/
def remove (table : ResourceTable capacity K R) (token : ResourceToken) :
    Except Panic (ResourceTable capacity K R × Except ResourceTokenFailure (K × R)) :=
  match table.validateToken token with
  | .error failure => .ok (table, .error failure)
  | .ok index =>
    let current := table.slots index
    let table := table.setSlot index .exhausted
    match current with
    | .occupied generation identity resource =>
      match table.active.checkedSub 1 with
      | none => .error .activeUnderflow
      | some active =>
        let table := { table with active }
        match ResourceGeneration.checkedNext generation with
        | some next => .ok (table.setSlot index (.vacant next), .ok (identity, resource))
        | none =>
          match table.exhausted.checkedAdd 1 with
          | none => .error .exhaustedOverflow
          | some exhausted => .ok ({ table with exhausted }, .ok (identity, resource))
    | .vacant _ | .exhausted => .error .validatedChanged

/-- Returns current live, vacant, and exhausted slot counts. -/
def snapshot (table : ResourceTable capacity K R) : Except Panic ResourceTableSnapshot :=
  match table.active.checkedAdd table.exhausted with
  | none => .error .accountingOverflow
  | some unavailable =>
    match capacity.get.checkedSub unavailable with
    | none => .error .accountingDiverged
    | some vacant => .ok ⟨table.owner, capacity, table.active, vacant, table.exhausted⟩

end ResourceTable

/-! ### Calls and replies -/

/-- What a caller asks; `getMut` comes with what the caller writes. -/
inductive Op (K R : Type)
  | admitResource (identity : K) (resource : R)
  | remove (token : ResourceToken)
  | get (token : ResourceToken)
  | getMut (token : ResourceToken) (write : R → R)
  | tokenFor (identity : K)
  | containsIdentity (identity : K)
  | iter
  | snapshot

inductive Reply (K R : Type)
  | admission (result : Except (ResourceAdmissionError K R) ResourceToken)
  | resource (result : Except ResourceTokenFailure (K × R))
  | token (result : Option ResourceToken)
  | contains (result : Bool)
  | entries (result : List (ResourceToken × K × R))
  | counts (snapshot : ResourceTableSnapshot)

/-- A typed failure. -/
def Reply.refused {K R : Type} : Reply K R → Bool
  | .admission (.error _) | .resource (.error _) => true
  | _ => false

theorem Reply.not_refused {K R : Type} {reply : Reply K R} {p : Prop}
    (h : reply.refused = false) (hrefused : reply.refused = true) : p := by
  rw [h] at hrefused
  cases hrefused

/-- Equal replies; the order of an iteration is unspecified. -/
inductive Reply.Same {K R : Type} : Reply K R → Reply K R → Prop
  | refl {reply} : Same reply reply
  | reordered {l l'} (h : l.Perm l') : Same (.entries l) (.entries l')

namespace ResourceTable

variable {capacity : NonZeroUsize} {K R : Type} [BEq K]

def exec (table : ResourceTable capacity K R) :
    Op K R → Except Panic (ResourceTable capacity K R × Reply K R)
  | .admitResource identity resource => do
    let (table, result) ← table.admitResource identity resource
    .ok (table, .admission result)
  | .remove token => do
    let (table, result) ← table.remove token
    .ok (table, .resource result)
  | .get token => .ok (table, .resource (table.get token))
  | .getMut token write =>
    let (table, result) := table.getMut token write
    .ok (table, .resource result)
  | .tokenFor identity => .ok (table, .token (table.tokenFor identity))
  | .containsIdentity identity => .ok (table, .contains (table.containsIdentity identity))
  | .iter => .ok (table, .entries table.iter)
  | .snapshot => do
    let snapshot ← table.snapshot
    .ok (table, .counts snapshot)

end ResourceTable

/-- A table under an arbitrary sequence of calls. -/
def system (capacity : NonZeroUsize) (owner : ResourceOwnerId) (generation : ResourceGeneration)
    (K R : Type) [BEq K] : TransitionSystem (ResourceTable capacity K R) (Op K R × Reply K R) where
  init table := table = .startingAt capacity owner generation
  step table l table' := table.exec l.1 = .ok (table', l.2)

end Resource

end Calandria
