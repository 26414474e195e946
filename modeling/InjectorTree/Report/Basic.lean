import InjectorTree.Report.Problem

/-!
# Reports

A report is a problem with the trail that led to it, innermost step first. A failed request carries one
report; the creation of an injector collects all reports it finds. Both are shown as a numbered list.
-/

namespace InjectorTree

/-- One step of the way from a request to the problem. -/
inductive Frame
  /-- The key that was being located. -/
  | locating (key : Key)
  /-- The declaration that was being processed. -/
  | at (source : Source)
deriving DecidableEq, Repr

/-- The step as a line of a report. -/
def Frame.text : Frame → String
  | .locating key => "while locating " ++ key.text
  | .at source => "at " ++ source.text

/-- A problem and the trail that led to it, innermost step first. -/
structure Report where
  problem : Problem
  trail : List Frame := []
deriving DecidableEq, Repr

namespace Report

/-- A problem without a trail. -/
def of (problem : Problem) : Report := ⟨problem, []⟩

/-- The failure of user code while a key was constructed. -/
def constructionFailed (key : Key) (inner : String) : Report :=
  .of (.constructionFailed key inner)

/-- The report seen from one step further out. -/
def within (report : Report) (frame : Frame) : Report :=
  { report with trail := report.trail ++ [frame] }

/-- The lines that number the declarations a problem lists. -/
def declaredAt (sources : List Source) : String :=
  if sources.isEmpty then ""
  else
    "\n\n  Declared at:" ++
      String.join (sources.zipIdx.map fun (source, index) => s!"\n  {index + 1}  : " ++ source.text)

/-- The lines of a trail, after an empty line. -/
def trailText (trail : List Frame) : String :=
  if trail.isEmpty then ""
  else "\n" ++ String.join (trail.map fun frame => "\n  " ++ frame.text)

/-- The sentence, the declarations and the trail. -/
def text (report : Report) : String :=
  report.problem.text ++ declaredAt report.problem.sources ++ trailText report.trail

/-- A heading, the numbered reports and their number. -/
def listing (heading : String) (reports : List Report) : String :=
  heading ++ ", see the following errors:" ++
    String.join (reports.zipIdx.map fun (report, index) => s!"\n\n{index + 1}) " ++ report.text) ++
    (if reports.length = 1 then "\n\n1 error" else s!"\n\n{reports.length} errors")

/-- The full text of a failed request. -/
def requestText (report : Report) : String :=
  listing "Unable to resolve the request" [report]

/-- The full text of a failed creation. -/
def creationText (reports : List Report) : String :=
  listing "Unable to create injector" reports

@[simp] theorem within_trail (report : Report) (frame : Frame) :
    (report.within frame).trail = report.trail ++ [frame] := rfl

end Report

end InjectorTree
