import StackPrimer.Report.Finding

/-!
# The journal

The journal collects findings and what is said on the console about the work. It becomes full with
the finding that makes their number equal to its limit, which stops the work; a journal without a
limit, or past it, never is full.

Results:
* `findings_say`: what is said on the console is no finding.
* `findings_file`: a finding that is filed stays, whether the journal becomes full by it or not.
-/

namespace StackPrimer

/-- What is known about the work so far. -/
structure Journal where
  /-- Messages up to this level are said. -/
  verbosity : Int := 0
  /-- The number of findings that stops the work; zero for none. -/
  limit : Nat := 3
  findings : List Finding := []
  /-- What has been said on the console, the last message first. -/
  said : List String := []
  deriving DecidableEq, Repr

namespace Journal

/-- Whether nothing went wrong. -/
def isClean (j : Journal) : Bool := j.findings.isEmpty

/-- Whether the last finding has reached the limit. -/
def isFull (j : Journal) : Bool := !j.isClean && j.findings.length == j.limit

/-- The journal with one more finding. -/
def file (j : Journal) (f : Finding) : Journal := { j with findings := j.findings ++ [f] }

/-- The journal without findings. -/
def reset (j : Journal) : Journal := { j with findings := [] }

/-- Says a message on the console. -/
def print (j : Journal) (message : String) : Journal := { j with said := message :: j.said }

/-- Says a message of some level, if the journal is as verbose as that. -/
def say (j : Journal) (level : Int) (message : String) : Journal :=
  if level ≤ j.verbosity then j.print message else j

/-- Says all findings. -/
def complain (j : Journal) : Journal :=
  if j.isClean then j
  else
    j.findings.foldl
      (fun j f => (j.print (String.join (List.replicate 20 "  -"))).print f.text)
      (j.print (String.ofList (List.replicate 60 '*')))

/-- All that has been said, line by line. -/
def console (j : Journal) : String := String.join (j.said.reverse.map (· ++ "\n"))

@[simp] theorem findings_say (j : Journal) (level : Int) (message : String) :
    (j.say level message).findings = j.findings := by
  unfold say
  split <;> rfl

@[simp] theorem findings_file (j : Journal) (f : Finding) :
    (j.file f).findings = j.findings ++ [f] := rfl

end Journal

end StackPrimer
