import Stainless.Crypto.DecimalText
import Stainless.Poker.Protocol

/-!
# The texts under the hashes

The hash functions of the protocol, with the texts that they pass to SHA-256 in order.  The fields of
a text hold no separator, so the text determines the function and what it was built from.
-/

open Stainless.Crypto

namespace Stainless.Poker

/-! ## 1. Hash functions that record what they hash -/

abbrev Hashing := StateM (List String)

namespace Hashing

def hash (native : Native) (message : String) : Hashing String := fun hashed ↦
  (sha256Text native message, hashed ++ [message])

def seedCommit (native : Native) (table : String) (handId : Nat) (address : String) (seedRound : Nat)
    (seed : String) : Hashing String := do
  if seedRound ≥ 5 ∨ !validHash seed then
    return ""
  hash native (segments "MMX_PARALLEL_POKER_SEED_V1"
    [table, decimal handId, address, decimal seedRound, seed])

def commitHash (native : Native) (table : String) (handId : Nat) (address : String)
    (commitments : List String) : Hashing String := do
  if commitments.length ≠ 5 ∨ !commitments.all validHash then
    return ""
  hash native (segments "MMX_PARALLEL_POKER_COMMIT_V1"
    ([table, decimal handId, address] ++ commitments))

def actionHash (native : Native) (table : String) (handId : Nat) (address : String)
    (bettingRound epoch action cumulativeBet : Nat) (checkpoint : String) : Hashing String := do
  if bettingRound ≥ 4 ∨ action ≥ 3 ∨ !validHash checkpoint then
    return ""
  hash native (segments "MMX_PARALLEL_POKER_ACTION_V1"
    [table, decimal handId, address, decimal bettingRound, decimal epoch, decimal action,
      decimal cumulativeBet, checkpoint])

def checkpointStep (native : Native) (table : String) (handId : Nat) (checkpoint : String)
    (phase eventRound epoch : Nat) (address : String) (event amount : Nat) (dataHash : String) :
    Hashing String := do
  if !validHash checkpoint ∨ (dataHash ≠ "" ∧ !validHash dataHash) then
    return ""
  hash native (segments "MMX_PARALLEL_POKER_CHECKPOINT_V1"
    [table, decimal handId, checkpoint, decimal phase, decimal eventRound, decimal epoch, address,
      decimal event, decimal amount, dataHash])

/-- The players join the checkpoint in their order, each with a stack. -/
def startSteps (native : Native) (table : String) (handId : Nat) :
    List (String × Nat) → String → Hashing String
  | [], checkpoint => return checkpoint
  | (address, stack) :: players, checkpoint => do
      let checkpoint ← checkpointStep native table handId checkpoint 0 0 0 address 1 stack ""
      startSteps native table handId players checkpoint

def startCheckpoint (native : Native) (table : String) (handId startHeight : Nat)
    (addresses : List String) («stacks» : List Nat) : Hashing String := do
  if addresses.length < 2 ∨ addresses.length ≠ «stacks».length then
    return ""
  let checkpoint ← hash native (segments "MMX_PARALLEL_POKER_START_V1"
    [table, decimal handId, decimal startHeight])
  startSteps native table handId (addresses.zip «stacks») checkpoint

def continueHash (native : Native) (table : String) (handId : Nat) (address : String)
    (resultStack : Nat) (checkpoint : String) : Hashing String := do
  if !validHash checkpoint then
    return ""
  hash native (segments "MMX_PARALLEL_POKER_CONTINUE_V1"
    [table, decimal handId, address, decimal resultStack, checkpoint])

def authHash (native : Native) (dealer challenge : String) (expiresAt : Nat) (address : String) :
    Hashing String :=
  hash native (segments "MMX_POKER_DEALER_AUTH_V1"
    [dealer, challenge, decimal expiresAt, address])

/-- Recording a text does not change its hash. -/
theorem seedCommit_value (native : Native) (table : String) (handId : Nat) (address : String)
    (seedRound : Nat) (seed : String) (hashed : List String) :
    (seedCommit native table handId address seedRound seed hashed).1 =
      Protocol.seedCommit native table handId address seedRound seed := by
  unfold seedCommit Protocol.seedCommit
  by_cases hrefused : seedRound ≥ 5 ∨ !validHash seed
  · rw [if_pos hrefused, if_pos hrefused]
    rfl
  · rw [if_neg hrefused, if_neg hrefused]
    rfl

theorem commitHash_value (native : Native) (table : String) (handId : Nat) (address : String)
    (commitments hashed : List String) :
    (commitHash native table handId address commitments hashed).1 =
      Protocol.commitHash native table handId address commitments := by
  unfold commitHash Protocol.commitHash
  by_cases hrefused : commitments.length ≠ 5 ∨ !commitments.all validHash
  · rw [if_pos hrefused, if_pos hrefused]
    rfl
  · rw [if_neg hrefused, if_neg hrefused]
    rfl

theorem checkpointStep_value (native : Native) (table : String) (handId : Nat) (checkpoint : String)
    (phase eventRound epoch : Nat) (address : String) (event amount : Nat) (dataHash : String)
    (hashed : List String) :
    (checkpointStep native table handId checkpoint phase eventRound epoch address event amount dataHash
      hashed).1 =
      Protocol.checkpointStep native table handId checkpoint phase eventRound epoch address event
        amount dataHash := by
  unfold checkpointStep Protocol.checkpointStep
  by_cases hrefused : !validHash checkpoint ∨ (dataHash ≠ "" ∧ !validHash dataHash)
  · rw [if_pos hrefused, if_pos hrefused]
    rfl
  · rw [if_neg hrefused, if_neg hrefused]
    rfl

theorem authHash_value (native : Native) (dealer challenge : String) (expiresAt : Nat)
    (address : String) (hashed : List String) :
    (authHash native dealer challenge expiresAt address hashed).1 =
      Protocol.authHash native dealer challenge expiresAt address := rfl

end Hashing

/-! ## 2. Calls -/

/-- The text holds no separator. -/
def Free (text : String) : Prop := '/' ∉ text.toList

instance (text : String) : Decidable (Free text) := inferInstanceAs (Decidable ('/' ∉ text.toList))

inductive HashKind
  | seed | commit | action | checkpoint | start | settle | auth

/-- What the texts of a kind begin with. -/
def HashKind.version : HashKind → String
  | .seed => "MMX_PARALLEL_POKER_SEED_V1"
  | .commit => "MMX_PARALLEL_POKER_COMMIT_V1"
  | .action => "MMX_PARALLEL_POKER_ACTION_V1"
  | .checkpoint => "MMX_PARALLEL_POKER_CHECKPOINT_V1"
  | .start => "MMX_PARALLEL_POKER_START_V1"
  | .settle => "MMX_PARALLEL_POKER_CONTINUE_V1"
  | .auth => "MMX_POKER_DEALER_AUTH_V1"

/-- A call of one of the hash functions. -/
inductive HashCall
  | seedCommit (table : String) (handId : Nat) (address : String) (seedRound : Nat) (seed : String)
  | commitHash (table : String) (handId : Nat) (address : String) (commitments : List String)
  | actionHash (table : String) (handId : Nat) (address : String)
      (bettingRound epoch action cumulativeBet : Nat) (checkpoint : String)
  | checkpointStep (table : String) (handId : Nat) (checkpoint : String)
      (phase eventRound epoch : Nat) (address : String) (event amount : Nat) (dataHash : String)
  | startCheckpoint (table : String) (handId startHeight : Nat) (addresses : List String)
      («stacks» : List Nat)
  | continueHash (table : String) (handId : Nat) (address : String) (resultStack : Nat)
      (checkpoint : String)
  | authHash (dealer challenge : String) (expiresAt : Nat) (address : String)
deriving DecidableEq

namespace HashCall

def run (native : Native) : HashCall → Hashing String
  | .seedCommit table handId address seedRound seed =>
      Hashing.seedCommit native table handId address seedRound seed
  | .commitHash table handId address commitments =>
      Hashing.commitHash native table handId address commitments
  | .actionHash table handId address bettingRound epoch action cumulativeBet checkpoint =>
      Hashing.actionHash native table handId address bettingRound epoch action cumulativeBet checkpoint
  | .checkpointStep table handId checkpoint phase eventRound epoch address event amount dataHash =>
      Hashing.checkpointStep native table handId checkpoint phase eventRound epoch address event amount
        dataHash
  | .startCheckpoint table handId startHeight addresses «stacks» =>
      Hashing.startCheckpoint native table handId startHeight addresses «stacks»
  | .continueHash table handId address resultStack checkpoint =>
      Hashing.continueHash native table handId address resultStack checkpoint
  | .authHash dealer challenge expiresAt address =>
      Hashing.authHash native dealer challenge expiresAt address

/-- What a call passes to SHA-256, in order. -/
def preimages (native : Native) (call : HashCall) : List String := (call.run native []).2

/-- The texts among the arguments that may be any. -/
def texts : HashCall → List String
  | .seedCommit table _ address _ _ => [table, address]
  | .commitHash table _ address _ => [table, address]
  | .actionHash table _ address _ _ _ _ _ => [table, address]
  | .checkpointStep table _ _ _ _ _ address _ _ _ => [table, address]
  | .startCheckpoint table _ _ addresses _ => table :: addresses
  | .continueHash table _ address _ _ => [table, address]
  | .authHash dealer challenge _ address => [dealer, challenge, address]

def Separable (call : HashCall) : Prop := ∀ text ∈ call.texts, Free text

instance (call : HashCall) : Decidable call.Separable := List.decidableBAll _ _

/-- The start message names the table, the hand and the height; the players follow in steps. -/
def named : HashCall → HashCall
  | .startCheckpoint table handId startHeight _ _ => .startCheckpoint table handId startHeight [] []
  | call => call

def kind : HashCall → HashKind
  | .seedCommit .. => .seed
  | .commitHash .. => .commit
  | .actionHash .. => .action
  | .checkpointStep .. => .checkpoint
  | .startCheckpoint .. => .start
  | .continueHash .. => .settle
  | .authHash .. => .auth

/-- The fields of the first text that a call hashes, after its version. -/
def fields : HashCall → List String
  | .seedCommit table handId address seedRound seed =>
      [table, decimal handId, address, decimal seedRound, seed]
  | .commitHash table handId address commitments => [table, decimal handId, address] ++ commitments
  | .actionHash table handId address bettingRound epoch action cumulativeBet checkpoint =>
      [table, decimal handId, address, decimal bettingRound, decimal epoch, decimal action,
        decimal cumulativeBet, checkpoint]
  | .checkpointStep table handId checkpoint phase eventRound epoch address event amount dataHash =>
      [table, decimal handId, checkpoint, decimal phase, decimal eventRound, decimal epoch, address,
        decimal event, decimal amount, dataHash]
  | .startCheckpoint table handId startHeight _ _ => [table, decimal handId, decimal startHeight]
  | .continueHash table handId address resultStack checkpoint =>
      [table, decimal handId, address, decimal resultStack, checkpoint]
  | .authHash dealer challenge expiresAt address => [dealer, challenge, decimal expiresAt, address]

/-- The text that a call hashes itself, before the steps it takes. -/
def text (native : Native) (call : HashCall) : Option String := (call.preimages native).head?

/-- The checks in front of the first hash. -/
def Accepted : HashCall → Prop
  | .seedCommit _ _ _ seedRound seed => ¬ (seedRound ≥ 5 ∨ !validHash seed)
  | .commitHash _ _ _ commitments => ¬ (commitments.length ≠ 5 ∨ !commitments.all validHash)
  | .actionHash _ _ _ bettingRound _ action _ checkpoint =>
      ¬ (bettingRound ≥ 4 ∨ action ≥ 3 ∨ !validHash checkpoint)
  | .checkpointStep _ _ checkpoint _ _ _ _ _ _ dataHash =>
      ¬ (!validHash checkpoint ∨ (dataHash ≠ "" ∧ !validHash dataHash))
  | .startCheckpoint _ _ _ addresses «stacks» =>
      ¬ (addresses.length < 2 ∨ addresses.length ≠ «stacks».length)
  | .continueHash _ _ _ _ checkpoint => ¬ (!validHash checkpoint)
  | .authHash .. => True

/-- The texts of the steps that add the players to a start. -/
def stepTexts (native : Native) (table : String) (handId : Nat) :
    List (String × Nat) → String → List String
  | [], _ => []
  | (address, stack) :: players, checkpoint =>
      let text := segments "MMX_PARALLEL_POKER_CHECKPOINT_V1"
        (fields (.checkpointStep table handId checkpoint 0 0 0 address 1 stack ""))
      text :: stepTexts native table handId players (sha256Text native text)

/-- The texts after the first one. -/
def laterTexts (native : Native) : HashCall → List String
  | .startCheckpoint table handId startHeight addresses «stacks» =>
      stepTexts native table handId (addresses.zip «stacks») (sha256Text native
        (segments "MMX_PARALLEL_POKER_START_V1" [table, decimal handId, decimal startHeight]))
  | _ => []

end HashCall

/-! ## 3. Separated fields -/

theorem segments_toList (message : String) (values : List String) :
    (segments message values).toList =
      ['/'].intercalate (message.toList :: values.map String.toList) := by
  induction values generalizing message with
  | nil => rw [List.map_nil, List.intercalate_singleton]; rfl
  | cons value values ih =>
      show (segments (message ++ "/" ++ value) values).toList = _
      rw [ih, List.map_cons, List.intercalate_cons_cons]
      cases values with
      | nil => simp [List.intercalate_singleton]
      | cons next values =>
          simp only [List.map_cons, List.intercalate_cons_cons, String.toList_append]
          simp

theorem segments_injective {message message' : String} {values values' : List String}
    (hfree : ∀ text ∈ message :: values, Free text)
    (hfree' : ∀ text ∈ message' :: values', Free text)
    (h : segments message values = segments message' values') :
    message = message' ∧ values = values' := by
  have hsplit : ∀ (message : String) (values : List String),
      (∀ text ∈ message :: values, '/' ∉ text.toList) →
      (segments message values).toList.splitOn '/' = (message :: values).map String.toList := by
    intro message values hfree
    rw [segments_toList, ← List.map_cons, List.splitOn_intercalate '/' _ (by simp)]
    intro text htext
    obtain ⟨field, hfield, rfl⟩ := List.mem_map.mp htext
    exact hfree field hfield
  have hlists : (message :: values).map String.toList = (message' :: values').map String.toList := by
    rw [← hsplit message values hfree, h, hsplit message' values' hfree']
  exact List.cons.inj ((List.map_inj_right fun _ _ ↦ String.toList_inj.mp).mp hlists)

theorem decimal_free (value : Nat) : Free (decimal value) := by
  rw [Free, decimal, Nat.toString_eq_repr, Nat.toList_repr]
  intro h
  exact absurd (Nat.isDigit_of_mem_toDigits (by decide) (by decide) h) (by decide)

theorem decimal_injective {value value' : Nat} (h : decimal value = decimal value') :
    value = value' := by
  have hvalue := (decimal_shortest value).denotes
  rw [h, (decimal_shortest value').denotes] at hvalue
  exact (Option.some.inj hvalue).symm

theorem hexValue_of_decodeNibbles {source decoded : List UInt8}
    (h : decodeNibbles source = some decoded) : ∀ byte ∈ source, hexValue byte ≠ 255 := by
  induction source using decodeNibbles.induct generalizing decoded with
  | case1 => exact fun byte hbyte ↦ absurd hbyte List.not_mem_nil
  | case2 => cases h
  | case3 high low rest hinvalid =>
      rw [decodeNibbles, if_pos hinvalid] at h
      cases h
  | case4 high low rest hvalid ih =>
      rw [decodeNibbles, if_neg hvalid] at h
      obtain ⟨others, hothers, -⟩ := Option.map_eq_some_iff.mp h
      intro byte hbyte
      cases hbyte with
      | head => exact fun hhigh ↦ hvalid (.inl hhigh)
      | tail _ hbyte =>
          cases hbyte with
          | head => exact fun hlow ↦ hvalid (.inr hlow)
          | tail _ hbyte => exact ih hothers byte hbyte

theorem validHash_free {value : String} (h : validHash value) : Free value := by
  intro hslash
  have hbyte : (47 : UInt8) ∈ bytes value := by
    rw [bytes_eq]
    exact List.mem_flatMap.mpr ⟨'/', hslash, by decide⟩
  unfold validHash isHex at h
  have hlength := of_decide_eq_true (Bool.and_eq_true_iff.mp h).2
  unfold decodeHex at hlength
  cases hdecoded : decodeNibbles (bytes value) with
  | none =>
      rw [hdecoded] at hlength
      cases hlength
  | some decoded => exact hexValue_of_decodeNibbles hdecoded 47 hbyte (by decide)

/-! ## 4. What a call hashes -/

namespace HashCall

variable {native : Native}

theorem startSteps_texts (hsha : ∀ source, validHash (native.sha256 source)) (table : String)
    (handId : Nat) (players : List (String × Nat)) {checkpoint : String}
    (hcheckpoint : validHash checkpoint) (hashed : List String) :
    (Hashing.startSteps native table handId players checkpoint hashed).2 =
      hashed ++ stepTexts native table handId players checkpoint := by
  induction players generalizing checkpoint hashed with
  | nil => exact (List.append_nil _).symm
  | cons player players ih =>
      obtain ⟨address, stack⟩ := player
      have hpass : ¬ ((!validHash checkpoint) = true ∨ ("" ≠ "" ∧ (!validHash "") = true)) := by
        rw [hcheckpoint]
        simp
      rw [Hashing.startSteps, stepTexts]
      show (Hashing.startSteps native table handId players
        (Hashing.checkpointStep native table handId checkpoint 0 0 0 address 1 stack "" hashed).1
        (Hashing.checkpointStep native table handId checkpoint 0 0 0 address 1 stack "" hashed).2).2 = _
      unfold Hashing.checkpointStep
      rw [if_neg hpass]
      exact (ih (hsha _) _).trans (List.append_assoc ..)

theorem texts_of_passed {c : Prop} [Decidable c] {x : Hashing String} (h : ¬ c) :
    ((if c then pure "" else x : Hashing String) []).2 = (x []).2 := by
  rw [if_neg h]

theorem texts_of_refused {c : Prop} [Decidable c] {x : Hashing String} (h : c) :
    ((if c then pure "" else x : Hashing String) []).2 = [] := by
  rw [if_pos h]
  rfl

theorem preimages_accepted (hsha : ∀ source, validHash (native.sha256 source)) {call : HashCall}
    (h : call.Accepted) :
    call.preimages native = segments call.kind.version call.fields :: call.laterTexts native := by
  cases call with
  | seedCommit table handId address seedRound seed => exact texts_of_passed h
  | commitHash table handId address commitments => exact texts_of_passed h
  | actionHash table handId address bettingRound epoch action cumulativeBet checkpoint =>
      exact texts_of_passed h
  | checkpointStep table handId checkpoint phase eventRound epoch address event amount dataHash =>
      exact texts_of_passed h
  | startCheckpoint table handId startHeight addresses players =>
      exact (texts_of_passed h).trans (startSteps_texts hsha table handId _ (hsha _) _)
  | continueHash table handId address resultStack checkpoint => exact texts_of_passed h
  | authHash dealer challenge expiresAt address => rfl

theorem accepted_of_preimages {call : HashCall} (h : call.preimages native ≠ []) : call.Accepted := by
  cases call with
  | seedCommit table handId address seedRound seed => exact fun hrefused ↦ h (texts_of_refused hrefused)
  | commitHash table handId address commitments => exact fun hrefused ↦ h (texts_of_refused hrefused)
  | actionHash table handId address bettingRound epoch action cumulativeBet checkpoint =>
      exact fun hrefused ↦ h (texts_of_refused hrefused)
  | checkpointStep table handId checkpoint phase eventRound epoch address event amount dataHash =>
      exact fun hrefused ↦ h (texts_of_refused hrefused)
  | startCheckpoint table handId startHeight addresses players =>
      exact fun hrefused ↦ h (texts_of_refused hrefused)
  | continueHash table handId address resultStack checkpoint =>
      exact fun hrefused ↦ h (texts_of_refused hrefused)
  | authHash dealer challenge expiresAt address => trivial

/-! ## 5. Fields and calls -/

theorem version_free (kind : HashKind) : Free kind.version := by
  cases kind <;> decide

theorem version_injective {kind kind' : HashKind} (h : kind.version = kind'.version) :
    kind = kind' := by
  cases kind <;> cases kind' <;> first | rfl | exact absurd h (by decide)

theorem fields_free {call : HashCall} (h : call.Accepted) (hfree : call.Separable) :
    ∀ text ∈ call.kind.version :: call.fields, Free text := by
  refine List.forall_mem_cons.mpr ⟨version_free _, ?_⟩
  cases call with
  | seedCommit table handId address seedRound seed =>
      have hseed : validHash seed := by simpa using (not_or.mp h).2
      simp only [Separable, texts, List.forall_mem_cons] at hfree
      simp only [fields, List.forall_mem_cons]
      exact ⟨hfree.1, decimal_free _, hfree.2.1, decimal_free _, validHash_free hseed, by simp⟩
  | commitHash table handId address commitments =>
      have hcommitments : ∀ commitment ∈ commitments, validHash commitment := by
        simpa using (not_or.mp h).2
      simp only [Separable, texts, List.forall_mem_cons] at hfree
      simp only [fields, List.cons_append, List.nil_append, List.forall_mem_cons]
      exact ⟨hfree.1, decimal_free _, hfree.2.1, fun commitment hmem ↦
        validHash_free (hcommitments commitment hmem)⟩
  | actionHash table handId address bettingRound epoch action cumulativeBet checkpoint =>
      have hcheckpoint : validHash checkpoint := by simpa using (not_or.mp (not_or.mp h).2).2
      simp only [Separable, texts, List.forall_mem_cons] at hfree
      simp only [fields, List.forall_mem_cons]
      exact ⟨hfree.1, decimal_free _, hfree.2.1, decimal_free _, decimal_free _, decimal_free _,
        decimal_free _, validHash_free hcheckpoint, by simp⟩
  | checkpointStep table handId checkpoint phase eventRound epoch address event amount dataHash =>
      have hcheckpoint : validHash checkpoint := by simpa using (not_or.mp h).1
      have hdata : Free dataHash := by
        by_cases hempty : dataHash = ""
        · rw [hempty]
          decide
        · exact validHash_free (by simpa [hempty] using (not_or.mp h).2)
      simp only [Separable, texts, List.forall_mem_cons] at hfree
      simp only [fields, List.forall_mem_cons]
      exact ⟨hfree.1, decimal_free _, validHash_free hcheckpoint, decimal_free _, decimal_free _,
        decimal_free _, hfree.2.1, decimal_free _, decimal_free _, hdata, by simp⟩
  | startCheckpoint table handId startHeight addresses players =>
      simp only [Separable, texts, List.forall_mem_cons] at hfree
      simp only [fields, List.forall_mem_cons]
      exact ⟨hfree.1, decimal_free _, decimal_free _, by simp⟩
  | continueHash table handId address resultStack checkpoint =>
      have hcheckpoint : validHash checkpoint := by simpa [Accepted] using h
      simp only [Separable, texts, List.forall_mem_cons] at hfree
      simp only [fields, List.forall_mem_cons]
      exact ⟨hfree.1, decimal_free _, hfree.2.1, decimal_free _, validHash_free hcheckpoint, by simp⟩
  | authHash dealer challenge expiresAt address =>
      simp only [Separable, texts, List.forall_mem_cons] at hfree
      simp only [fields, List.forall_mem_cons]
      exact ⟨hfree.1, hfree.2.1, decimal_free _, hfree.2.2.1, by simp⟩

/-- The version and the fields are all that the function and its arguments come to. -/
theorem named_of_fields {call call' : HashCall} (hkind : call.kind = call'.kind)
    (hfields : call.fields = call'.fields) : call.named = call'.named := by
  cases call with
  | seedCommit table handId address seedRound seed =>
      cases call' with
      | seedCommit table' handId' address' seedRound' seed' =>
          simp only [fields, List.cons.injEq, and_true] at hfields
          obtain ⟨rfl, hhand, rfl, hround, rfl⟩ := hfields
          rw [decimal_injective hhand, decimal_injective hround]
      | _ => cases hkind
  | commitHash table handId address commitments =>
      cases call' with
      | commitHash table' handId' address' commitments' =>
          simp only [fields, List.cons_append, List.nil_append, List.cons.injEq] at hfields
          obtain ⟨rfl, hhand, rfl, rfl⟩ := hfields
          rw [decimal_injective hhand]
      | _ => cases hkind
  | actionHash table handId address bettingRound epoch action cumulativeBet checkpoint =>
      cases call' with
      | actionHash table' handId' address' bettingRound' epoch' action' cumulativeBet' checkpoint' =>
          simp only [fields, List.cons.injEq, and_true] at hfields
          obtain ⟨rfl, hhand, rfl, hround, hepoch, haction, hbet, rfl⟩ := hfields
          rw [decimal_injective hhand, decimal_injective hround, decimal_injective hepoch,
            decimal_injective haction, decimal_injective hbet]
      | _ => cases hkind
  | checkpointStep table handId checkpoint phase eventRound epoch address event amount dataHash =>
      cases call' with
      | checkpointStep table' handId' checkpoint' phase' eventRound' epoch' address' event' amount'
          dataHash' =>
          simp only [fields, List.cons.injEq, and_true] at hfields
          obtain ⟨rfl, hhand, rfl, hphase, hround, hepoch, rfl, hevent, hamount, rfl⟩ := hfields
          rw [decimal_injective hhand, decimal_injective hphase, decimal_injective hround,
            decimal_injective hepoch, decimal_injective hevent, decimal_injective hamount]
      | _ => cases hkind
  | startCheckpoint table handId startHeight addresses players =>
      cases call' with
      | startCheckpoint table' handId' startHeight' addresses' players' =>
          simp only [fields, List.cons.injEq, and_true] at hfields
          obtain ⟨rfl, hhand, hheight⟩ := hfields
          rw [decimal_injective hhand, decimal_injective hheight]
          rfl
      | _ => cases hkind
  | continueHash table handId address resultStack checkpoint =>
      cases call' with
      | continueHash table' handId' address' resultStack' checkpoint' =>
          simp only [fields, List.cons.injEq, and_true] at hfields
          obtain ⟨rfl, hhand, rfl, hstack, rfl⟩ := hfields
          rw [decimal_injective hhand, decimal_injective hstack]
      | _ => cases hkind
  | authHash dealer challenge expiresAt address =>
      cases call' with
      | authHash dealer' challenge' expiresAt' address' =>
          simp only [fields, List.cons.injEq, and_true] at hfields
          obtain ⟨rfl, rfl, hexpires, rfl⟩ := hfields
          rw [decimal_injective hexpires]
      | _ => cases hkind

/-! ## 6. The texts are unambiguous -/

theorem named_of_segments {call call' : HashCall} (haccepted : call.Accepted)
    (haccepted' : call'.Accepted) (hfree : call.Separable) (hfree' : call'.Separable)
    (h : segments call.kind.version call.fields = segments call'.kind.version call'.fields) :
    call.named = call'.named := by
  have hparts := segments_injective (fields_free haccepted hfree) (fields_free haccepted' hfree') h
  exact named_of_fields (version_injective hparts.1) hparts.2

theorem text_eq (hsha : ∀ source, validHash (native.sha256 source)) {call : HashCall} {text : String}
    (h : call.text native = some text) :
    call.Accepted ∧ segments call.kind.version call.fields = text := by
  have hsome : call.preimages native ≠ [] := by
    intro hnone
    rw [HashCall.text, hnone] at h
    cases h
  have haccepted := accepted_of_preimages hsome
  rw [HashCall.text, preimages_accepted hsha haccepted] at h
  exact ⟨haccepted, Option.some.inj h⟩

theorem step_accepted {table : String} {handId : Nat} {checkpoint address : String} {stack : Nat}
    (hcheckpoint : validHash checkpoint) :
    Accepted (.checkpointStep table handId checkpoint 0 0 0 address 1 stack "") := by
  intro hrefused
  rw [hcheckpoint] at hrefused
  simp at hrefused

theorem step_separable {table : String} {handId : Nat} {checkpoint address : String} {stack : Nat}
    (htable : Free table) (haddress : Free address) :
    Separable (.checkpointStep table handId checkpoint 0 0 0 address 1 stack "") := by
  simp only [Separable, texts, List.forall_mem_cons]
  exact ⟨htable, haddress, by simp⟩

/-- The steps determine the players: each of them starts from the hash of the one before. -/
theorem stepTexts_injective (hsha : ∀ source, validHash (native.sha256 source)) {table : String}
    {handId : Nat} {players players' : List (String × Nat)} {checkpoint : String}
    (hcheckpoint : validHash checkpoint) (htable : Free table)
    (hfree : ∀ player ∈ players, Free player.1) (hfree' : ∀ player ∈ players', Free player.1)
    (h : stepTexts native table handId players checkpoint =
      stepTexts native table handId players' checkpoint) : players = players' := by
  induction players generalizing players' checkpoint with
  | nil =>
      cases players' with
      | nil => rfl
      | cons player' players' => cases h
  | cons player players ih =>
      cases players' with
      | nil => cases h
      | cons player' players' =>
          obtain ⟨address, stack⟩ := player
          obtain ⟨address', stack'⟩ := player'
          have haddress := List.forall_mem_cons.mp hfree
          have haddress' := List.forall_mem_cons.mp hfree'
          have hparts := List.cons.inj h
          have hstep := named_of_segments (step_accepted hcheckpoint) (step_accepted hcheckpoint)
            (step_separable htable haddress.1) (step_separable htable haddress'.1) hparts.1
          cases hstep
          rw [ih (hsha _) haddress.2 haddress'.2 hparts.2]

theorem mem_stepTexts (hsha : ∀ source, validHash (native.sha256 source)) {table : String}
    {handId : Nat} {players : List (String × Nat)} {checkpoint text : String}
    (hcheckpoint : validHash checkpoint) (hfree : ∀ player ∈ players, Free player.1)
    (h : text ∈ stepTexts native table handId players checkpoint) :
    ∃ checkpoint address stack, Free address ∧
      HashCall.text native (.checkpointStep table handId checkpoint 0 0 0 address 1 stack "") =
        some text := by
  induction players generalizing checkpoint with
  | nil => exact absurd h List.not_mem_nil
  | cons player players ih =>
      obtain ⟨address, stack⟩ := player
      have haddress := List.forall_mem_cons.mp hfree
      rcases List.mem_cons.mp h with rfl | hlater
      · refine ⟨checkpoint, address, stack, haddress.1, ?_⟩
        rw [HashCall.text, preimages_accepted hsha (step_accepted hcheckpoint)]
        rfl
      · exact ih (hsha _) haddress.2 hlater

theorem zip_free {addresses : List String} {«stacks» : List Nat}
    (h : ∀ address ∈ addresses, Free address) :
    ∀ player ∈ addresses.zip «stacks», Free player.1 :=
  fun player hplayer ↦ h player.1 (List.of_mem_zip hplayer).1

theorem eq_of_preimages (hsha : ∀ source, validHash (native.sha256 source)) {call call' : HashCall}
    (hfree : call.Separable) (hfree' : call'.Separable) (hsome : call.preimages native ≠ [])
    (h : call.preimages native = call'.preimages native) : call = call' := by
  have haccepted := accepted_of_preimages hsome
  have haccepted' := accepted_of_preimages (h ▸ hsome)
  rw [preimages_accepted hsha haccepted, preimages_accepted hsha haccepted'] at h
  have hparts := List.cons.inj h
  have hnamed := named_of_segments haccepted haccepted' hfree hfree' hparts.1
  cases call with
  | startCheckpoint table handId startHeight addresses players =>
      cases call' with
      | startCheckpoint table' handId' startHeight' addresses' players' =>
          cases hnamed
          have hfree := List.forall_mem_cons.mp hfree
          have hfree' := List.forall_mem_cons.mp hfree'
          have hzip := stepTexts_injective hsha (hsha _) hfree.1 (zip_free hfree.2)
            (zip_free hfree'.2) hparts.2
          -- as many addresses as amounts, so the pairs are all of them
          have hlength : addresses.length = players.length := by
            by_contra hne
            exact haccepted (.inr hne)
          have hlength' : addresses'.length = players'.length := by
            by_contra hne
            exact haccepted' (.inr hne)
          have haddresses : addresses = addresses' := by
            rw [← List.map_fst_zip (Nat.le_of_eq hlength), hzip,
              List.map_fst_zip (Nat.le_of_eq hlength')]
          have hplayers : players = players' := by
            rw [← List.map_snd_zip (Nat.le_of_eq hlength.symm), hzip,
              List.map_snd_zip (Nat.le_of_eq hlength'.symm)]
          rw [haddresses, hplayers]
      | _ => cases hnamed
  | _ =>
      cases call' with
      | startCheckpoint table handId startHeight addresses players => cases hnamed
      | _ => exact hnamed

theorem mem_preimages (hsha : ∀ source, validHash (native.sha256 source)) {call : HashCall}
    (hfree : call.Separable) {text : String} (h : text ∈ call.preimages native) :
    call.text native = some text ∨ ∃ table handId checkpoint address stack, Free table ∧
      Free address ∧ HashCall.text native
        (.checkpointStep table handId checkpoint 0 0 0 address 1 stack "") = some text := by
  have haccepted := accepted_of_preimages (List.ne_nil_of_mem h)
  have htexts := preimages_accepted hsha haccepted
  rw [htexts] at h
  rcases List.mem_cons.mp h with rfl | hlater
  · refine .inl ?_
    rw [HashCall.text, htexts]
    rfl
  · cases call with
    | startCheckpoint table handId startHeight addresses players =>
        have hparts := List.forall_mem_cons.mp hfree
        obtain ⟨checkpoint, address, stack, haddress, htext⟩ :=
          mem_stepTexts hsha (hsha _) (zip_free hparts.2) hlater
        exact .inr ⟨table, handId, checkpoint, address, stack, hparts.1, haddress, htext⟩
    | _ => exact absurd hlater List.not_mem_nil

end HashCall

open HashCall

/-- A text is hashed by one function for one list of arguments, of which the start of a hand hashes
the table, the hand and the height itself.  Its players follow in steps, and what a call hashes in all
determines every argument. -/
theorem preimages_unambiguous {native : Native} (hsha : ∀ source, validHash (native.sha256 source))
    {call call' : HashCall} (hfree : call.Separable) (hfree' : call'.Separable) :
    (∀ text, call.text native = some text → call'.text native = some text →
      call.named = call'.named) ∧
    (∀ text ∈ call.preimages native, call.text native = some text ∨
      ∃ table handId checkpoint address stack, Free table ∧ Free address ∧ HashCall.text native
        (.checkpointStep table handId checkpoint 0 0 0 address 1 stack "") = some text) ∧
    (call.preimages native ≠ [] → call.preimages native = call'.preimages native →
      call = call') := by
  refine ⟨fun text htext htext' ↦ ?_, fun text htext ↦ mem_preimages hsha hfree htext,
    eq_of_preimages hsha hfree hfree'⟩
  obtain ⟨haccepted, hsegments⟩ := text_eq hsha htext
  obtain ⟨haccepted', hsegments'⟩ := text_eq hsha htext'
  exact named_of_segments haccepted haccepted' hfree hfree' (hsegments.trans hsegments'.symm)

/-! ## 7. Runs -/

def authDigest : String := "fab7cf91999d6b7e85fdef387dacfaf39611ce0b9da628a456f91bc8eee8ebf7"

def settleDigest : String := "b4e5a03bcb0e4c35a6e2c85ef9314ca1fe495d817885fa7fa94bd3ec00940348"

def startDigest : String := "22ad763e95bd5be58a31fcc26fa355da468eabf24a6cefc4ed408bcf74c3cf65"

/-- The digests of an authentication and of the settlement below, as SHA-256 gives them. -/
def digests : Native where
  sha256 source :=
    if source = bytes "MMX_POKER_DEALER_AUTH_V1/dealer/challenge/30/player" then authDigest
    else if source = bytes "MMX_PARALLEL_POKER_START_V1/table/7/5" then startDigest
    else settleDigest
  verify _ _ _ := false

theorem digests_valid (source : List UInt8) : validHash (digests.sha256 source) := by
  have hauth : validHash authDigest := by decide +kernel
  have hstart : validHash startDigest := by decide +kernel
  have hsettle : validHash settleDigest := by decide +kernel
  unfold digests
  simp only
  split
  · exact hauth
  · split
    · exact hstart
    · exact hsettle

def authCall : HashCall := .authHash "dealer" "challenge" 30 "player"

def settleCall : HashCall := .continueHash "table" 7 "player" 100 authDigest

/-- An authentication and a settlement hash different texts. -/
theorem auth_settle_unambiguous :
    (∀ text, authCall.text digests = some text → settleCall.text digests = some text →
      authCall.named = settleCall.named) ∧
    (∀ text ∈ authCall.preimages digests, authCall.text digests = some text ∨
      ∃ table handId checkpoint address stack, Free table ∧ Free address ∧ HashCall.text digests
        (.checkpointStep table handId checkpoint 0 0 0 address 1 stack "") = some text) ∧
    (authCall.preimages digests ≠ [] → authCall.preimages digests = settleCall.preimages digests →
      authCall = settleCall) :=
  preimages_unambiguous digests_valid (by decide) (by decide)

def startCall («stacks» : List Nat) : HashCall :=
  .startCheckpoint "table" 7 5 ["first", "second"] «stacks»

/-- Two starts with other amounts begin with the same text. -/
theorem start_text_shared :
    (startCall [10, 20]).Separable ∧ (startCall [20, 10]).Separable ∧
    (startCall [10, 20]).text digests = some "MMX_PARALLEL_POKER_START_V1/table/7/5" ∧
    (startCall [20, 10]).text digests = some "MMX_PARALLEL_POKER_START_V1/table/7/5" ∧
    startCall [10, 20] ≠ startCall [20, 10] :=
  ⟨by decide, by decide, by decide +kernel, by decide +kernel, by decide⟩

end Stainless.Poker
