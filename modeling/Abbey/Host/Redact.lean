import Abbey.Lib.Replace
import Abbey.Lib.Text

/-!
# Outbound redaction

The values of credential-bearing variables are replaced in the text of a response,
after it was encoded.
-/

namespace Abbey.Host

open Abbey.Lib

def redactionPlaceholder : List Char := "[REDACTED]".toList

def minRedactableSecretBytes : Nat := 8

/-- Replace one secret that is long enough. -/
def redactOne (text secret : List Char) : List Char :=
  if bytes secret < minRedactableSecretBytes then text
  else if secret <:+: text then replace secret redactionPlaceholder text
  else text

def redactWith (text : List Char) (secrets : List (List Char)) : List Char :=
  secrets.foldl redactOne text

/-- The test for an occurrence only saves a copy. -/
theorem redactOne_eq (text secret : List Char) : redactOne text secret =
      if bytes secret < minRedactableSecretBytes then text
      else replace secret redactionPlaceholder text := by
  unfold redactOne
  split_ifs with hshort hin
  · rfl
  · rfl
  · exact (replace_eq_self hin).symm

end Abbey.Host
