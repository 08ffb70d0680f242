import Abbey.Lib.Json
import Abbey.Reward.Outcome

/-!
# The erasure ledger

`extensions/bot/src/brain/erasure.rs`: the tombstones that keep the late
callbacks of an erased member, or of an erased scope, from learning again.
-/

namespace Abbey.Reward

open Abbey.Lib

structure Tombstone where
  subject : String
  reactor : Option String
  at' : Nat
  until' : Nat
deriving DecidableEq

structure ErasureLedger where
  rows : List Tombstone
deriving DecidableEq

section Ledger

variable [Seams]

def digest (value : Value) : String := Seams.sha256 (String.ofList value.print)

def subject (scope : String) (member : Option String) : String :=
  digest (.array [.string "learning-erasure-v1", .string scope,
    (member.map Value.string).getD .null])

def reactor (scope : String) (hash : Nat) : String :=
  digest (.array [.string "learning-reactor-erasure-v1", .string scope, .number (.posInt hash)])

/-- `member_hash`, of the key of a member. -/
def memberHash (memberKey : String) : Nat := Seams.wyhash 0x7374796c655f6d6b memberKey

namespace ErasureLedger

def isDigest (s : String) : Bool :=
  s.utf8ByteSize = 64 && s.toList.all (fun c => c.isDigit || ('a' ≤ c ∧ c ≤ 'f') || ('A' ≤ c ∧ c ≤ 'F'))

def validate (ledger : ErasureLedger) : Except String Unit := do
  ensure (ledger.rows.length ≤ 4096) "learning erasure capacity exceeded"
  ensure (ledger.rows.all (fun row => isDigest row.subject && row.reactor.all isDigest &&
      row.at' + 300 < 2 ^ 64 && row.until' = row.at' + 300) &&
    decide (ledger.rows.map Tombstone.subject).Nodup) "invalid learning erasure tombstone"

def blocks (ledger : ErasureLedger) (scope member : String) (admittedAt : Nat) : Bool :=
  ledger.rows.any (fun row =>
    (row.subject = subject scope none || row.subject = subject scope (some member)) &&
      admittedAt ≤ row.until')

def blocksHash (ledger : ErasureLedger) (scope : String) (hash admittedAt : Nat) : Bool :=
  ledger.rows.any (fun row =>
    (row.subject = subject scope none || row.reactor = some (reactor scope hash)) &&
      admittedAt ≤ row.until')

end ErasureLedger

end Ledger

end Abbey.Reward
