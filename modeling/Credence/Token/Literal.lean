
namespace Credence.Token.Literal

def closeTriple? (quote : Char) : List Char → Option Nat
  | [] => none
  | c :: cs =>
    match cs with
    | d :: e :: _ =>
      if c = quote ∧ d = quote ∧ e = quote then some 3
      else (closeTriple? quote cs).map (· + 1)
    | _ => none

/-- Counts the characters up to and with the first quote that no backslash escapes, on one line but
for escaped line ends. -/
def closeSingle? (quote : Char) : List Char → Option Nat
  | [] => none
  | c :: cs =>
    if c = quote then some 1
    else if c = '\n' then none
    else if c = '\\' then
      match cs with
      | [] => none
      | _ :: ds => (closeSingle? quote ds).map (· + 2)
    else (closeSingle? quote cs).map (· + 1)

def isTag (tag : List Char) : Bool :=
  ["", "r", "b", "u", "f", "rb", "br", "fr", "rf"].contains
    (String.ofList (tag.map Char.toLower))

/-- The text after a tag, where the opening quote is expected: the length of the literal without the
tag, and whether it has three quotes on either side. -/
def body? : List Char → Option (Bool × Nat)
  | [] => none
  | q :: cs =>
    let single := (closeSingle? q cs).map fun n => (false, n + 1)
    match cs with
    | d :: e :: ds =>
      if d = q ∧ e = q then
        match closeTriple? q ds with
        | some n => some (true, n + 3)
        | none => single
      else single
    | _ => single

def isQuote (c : Char) : Bool :=
  c == '"' || c == '\''

def tag? (cs : List Char) : Option (List Char) :=
  let tag := (cs.take 3).takeWhile (fun c => !isQuote c)
  if isTag tag && (cs.drop tag.length).head?.any isQuote then some tag else none

/-- One escape sequence after its backslash: the text it stands for and the characters it takes, or
`none` if the backslash stands for itself. -/
def escape? : List Char → Option (List Char × Nat)
  | [] => none
  | c :: cs =>
    match c with
    | 'n' => some (['\n'], 1)
    | 't' => some (['\t'], 1)
    | 'r' => some (['\r'], 1)
    | '\\' => some (['\\'], 1)
    | '\'' => some (['\''], 1)
    | '"' => some (['"'], 1)
    | '0' => some (['\x00'], 1)
    | 'a' => some (['\x07'], 1)
    | 'b' => some (['\x08'], 1)
    | 'f' => some (['\x0c'], 1)
    | 'v' => some (['\x0b'], 1)
    | '\n' => some ([], 1)
    | 'x' =>
      match (cs.take 2).takeWhile isHex with
      | [] => some (['\\', 'x'], 1)
      | digits => some ([Char.ofNat (digits.foldl (fun n d => 16 * n + hexValue d) 0)],
          digits.length + 1)
    | _ => none
where
  isHex (c : Char) : Bool :=
    c.isDigit || ('a' ≤ c && c ≤ 'f') || ('A' ≤ c && c ≤ 'F')
  hexValue (c : Char) : Nat :=
    if c.isDigit then c.toNat - 48
    else if 'a' ≤ c then c.toNat - 87
    else c.toNat - 55

def unescape : List Char → List Char
  | [] => []
  | c :: cs =>
    if c = '\\' then
      match escape? cs with
      | some (text, taken) => text ++ unescape (cs.drop taken)
      | none => c :: unescape cs
    else c :: unescape cs
termination_by cs => cs.length
decreasing_by all_goals simp; try omega

end Credence.Token.Literal
