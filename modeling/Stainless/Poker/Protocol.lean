import Stainless.Crypto.Crypto
import Stainless.Poker.Model

/-!
# Message hashes and inbox keys

The texts that a hand's hashes cover, and the keys under which submissions wait.
-/

open Stainless.Crypto

namespace Stainless.Poker

/-- `append_segment` once for each of the values. -/
def segments (message : String) (values : List String) : String :=
  values.foldl (fun message value ↦ message ++ "/" ++ value) message

def inboxKey (table : String) (handId : Nat) (address : String) (kind : SubmissionKind)
    (round epoch : Nat) : String :=
  segments table [decimal handId, address, kind.text, decimal round, decimal epoch]

def validHash (value : String) : Bool := isHex value 32

namespace Protocol

def seedCommit (native : Native) (table : String) (handId : Nat) (address : String) (seedRound : Nat)
    (seed : String) : String :=
  if seedRound ≥ 5 ∨ !validHash seed then ""
  else sha256Text native (segments "MMX_PARALLEL_POKER_SEED_V1"
    [table, decimal handId, address, decimal seedRound, seed])

def commitHash (native : Native) (table : String) (handId : Nat) (address : String)
    (commitments : List String) : String :=
  if commitments.length ≠ 5 ∨ !commitments.all validHash then ""
  else sha256Text native (segments "MMX_PARALLEL_POKER_COMMIT_V1"
    ([table, decimal handId, address] ++ commitments))

def checkpointStep (native : Native) (table : String) (handId : Nat) (checkpoint : String)
    (phase eventRound epoch : Nat) (address : String) (event amount : Nat) (dataHash : String) :
    String :=
  if !validHash checkpoint ∨ (dataHash ≠ "" ∧ !validHash dataHash) then ""
  else sha256Text native (segments "MMX_PARALLEL_POKER_CHECKPOINT_V1"
    [table, decimal handId, checkpoint, decimal phase, decimal eventRound, decimal epoch, address,
      decimal event, decimal amount, dataHash])

def authHash (native : Native) (dealer challenge : String) (expiresAt : Nat) (address : String) :
    String :=
  sha256Text native (segments "MMX_POKER_DEALER_AUTH_V1"
    [dealer, challenge, decimal expiresAt, address])

end Protocol

end Stainless.Poker
