namespace RegisterAllocation

-- Errors reported so far, in the order they arrived. A report of nothing is no report, and one
-- report may combine several errors.
structure Collector (ε : Type) where
  reports : List (List ε) := []
  deriving DecidableEq, Repr

namespace Collector

def append {ε : Type} (c : Collector ε) (report : List ε) : Collector ε :=
  match report with
  | [] => c
  | report => ⟨c.reports ++ [report]⟩

def size {ε : Type} (c : Collector ε) : Nat := c.reports.length

def combined {ε : Type} (c : Collector ε) : List ε := c.reports.flatten

theorem combined_append {ε : Type} (c : Collector ε) (report : List ε) :
    (c.append report).combined = c.combined ++ report := by
  cases report <;> simp [append, combined]

end Collector

def joinErrors (texts : List String) : String := "; ".intercalate texts

end RegisterAllocation
