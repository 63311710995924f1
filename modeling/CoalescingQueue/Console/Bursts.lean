import CoalescingQueue.Text.Split

/-!
# Burst scripts

A script of identifiers: bursts are separated by semicolons, identifiers within a burst by
commas. Blanks around an identifier do not count, and empty identifiers and bursts are left out.
-/
namespace CoalescingQueue.Console

/-- The identifiers of one burst. -/
def parseBurst (cs : List Char) : List (List Char) :=
  ((Text.cut ',' cs).map Text.trim).filter (!·.isEmpty)

def parseBursts (cs : List Char) : List (List (List Char)) :=
  ((Text.cut ';' cs).map parseBurst).filter (!·.isEmpty)

/-- The bursts of a script, in order. -/
def bursts (script : String) : List (List String) :=
  (parseBursts script.toList).map fun burst => burst.map String.ofList

end CoalescingQueue.Console
