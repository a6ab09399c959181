import Credence.Report.Diagnostic

namespace Credence

structure Seen where
  keys : List String := []
deriving Inhabited

namespace Seen

def key (kind file : String) (line : Nat) (identifier : String) : String :=
  kind ++ "|" ++ file ++ "|" ++ toString line ++ "|" ++ identifier

def add (s : Seen) (key : String) : Bool × Seen :=
  if s.keys.contains key then (false, s) else (true, ⟨key :: s.keys⟩)

end Seen

def occursIn (part : List Char) : List Char → Bool
  | [] => part.isEmpty
  | c :: rest => part.isPrefixOf (c :: rest) || occursIn part rest

structure Filter where
  ignoredPathFragments : List String := ["site-packages", "lib/python"]
  ignoreStubFiles : Bool := true
  suppressAttributeErrors : Bool := false

instance : Inhabited Filter :=
  ⟨{}⟩

def Filter.ignoresFile (f : Filter) (file : String) : Bool :=
  (f.ignoreStubFiles && ".pyi".toList.isSuffixOf file.toList) ||
    f.ignoredPathFragments.any fun fragment =>
      !fragment.isEmpty && occursIn fragment.toList file.toList

structure Cursor where
  file : String
  line : Nat := 0
deriving DecidableEq, Inhabited

structure Hub where
  cursor : Cursor
  filter : Filter := {}
  seen : Seen := {}
  /-- Kinds suppressed by each enclosing handler, the innermost first. -/
  suppressions : List (List DiagnosticKind) := []
  /-- Accepted diagnostics that are not drained yet, oldest first. -/
  pending : List Diagnostic := []
  total : Nat := 0
deriving Inhabited

namespace Hub

def setLine (h : Hub) (line : Nat) : Hub :=
  { h with cursor := { h.cursor with line } }

def moveTo (h : Hub) (cursor : Cursor) : Hub :=
  { h with cursor }

def pushSuppression (h : Hub) (kinds : List DiagnosticKind) : Hub :=
  { h with suppressions := kinds :: h.suppressions }

def popSuppression (h : Hub) : Hub :=
  { h with suppressions := h.suppressions.tail }

def isSuppressed (h : Hub) (kind : DiagnosticKind) : Bool :=
  (kind.isAttribute && h.filter.suppressAttributeErrors) ||
    h.suppressions.any (·.contains kind)

/-- Takes a finding in at a place; true if it was accepted. -/
def reportAt (h : Hub) (place : Cursor) (finding : Finding) : Bool × Hub :=
  if h.filter.ignoresFile place.file || h.isSuppressed finding.kind then (false, h)
  else
    let key := Seen.key finding.kind.name place.file place.line finding.identifier
    let (isNew, seen) := h.seen.add key
    if !isNew then (false, h)
    else
      let diagnostic : Diagnostic :=
        { kind := finding.kind, file := place.file, line := place.line,
          identifier := finding.identifier, confidence := clampUnit finding.confidence,
          message := finding.message }
      (true, { h with seen, pending := h.pending ++ [diagnostic], total := h.total + 1 })

def report (h : Hub) (finding : Finding) : Bool × Hub :=
  h.reportAt h.cursor finding

def reportAll (h : Hub) (findings : List Finding) : Hub :=
  findings.foldl (fun h finding => (h.report finding).2) h

def drain (h : Hub) : List Diagnostic × Hub :=
  (h.pending, { h with pending := [] })

end Hub

end Credence
