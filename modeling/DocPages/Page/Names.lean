/-
File names of pages.

Within one output folder a name is given out once.  A later page that wants the same
name gets the least number from two on that makes it free, and the collision is
reported.
-/
import DocPages.Log
import DocPages.Page.Outline

namespace DocPages
namespace Page

/-- The names given out so far, and which item got which, the latest first. -/
structure Names where
  used : List String := []
  chosen : List (ItemId × String) := []
deriving Repr

namespace Names

def find? (names : Names) (id : ItemId) : Option String := names.chosen.lookup id

def suffixed (wanted : String) (n : Nat) : String := wanted ++ "-" ++ toString n

/-- The name itself if it is free, and else the first numbered one that is.  One more
number is tried than there are names in use, so one of them is free. -/
def firstFree (used : List String) (wanted : String) : String :=
  if used.contains wanted then
    let number := (List.range' 2 (used.length + 1)).find? fun n =>
      !used.contains (suffixed wanted n)
    suffixed wanted (number.getD 2)
  else wanted

/-- Gives a name to the page of an entry. -/
def assign (names : Names) (e : Entry) (wanted : String) : Names × String × Log :=
  let name := firstFree names.used wanted
  let log :=
    if name == wanted then []
    else [.error (e.fullName ++ ": " ++ wanted ++ ".md is already taken, writing " ++ name ++ ".md")]
  (⟨name :: names.used, (e.id, name) :: names.chosen⟩, name, log)

mutual
/-- Names the page of an outline and the pages of its nested types, which start with the
name of the page above them. -/
def assignAll (o : Options) (above : Option String) (names : Names) : Outline → Names × Log
  | .node e _ nested =>
    if e.isBlank then (names, [])
    else
      let own := Naming.pageName e.item.name
      let wanted := match above with
        | some parent => parent ++ "-" ++ own
        | none => own
      let (names, name, log) := names.assign e wanted
      if o.inlineTypes then (names, log)
      else
        let (names, more) := assignEach o (some name) names nested
        (names, log ++ more)

def assignEach (o : Options) (above : Option String) (names : Names) : List Outline → Names × Log
  | [] => (names, [])
  | first :: rest =>
    let (names, log) := assignAll o above names first
    let (names, more) := assignEach o above names rest
    (names, log ++ more)
end

end Names
end Page
end DocPages
