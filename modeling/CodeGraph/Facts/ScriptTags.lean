import CodeGraph.Resolve
import CodeGraph.Text.Words

/-!
# Script tags

Which local files the script tags of a page name. A page is not parsed: a tag is `<script`, anything
without `>`, `src=`, a quoted address and the rest up to `>`. The last `src=` that works counts.
-/

namespace CodeGraph

namespace ScriptTags

/-- Are two letters the same, case aside? The dotted capital and the dotless small letter count as
`i`, the long letter as `s`. -/
def sameLetter (pattern c : Char) : Bool :=
  c == pattern || (pattern.isLower && c == pattern.toUpper) ||
    (pattern == 'i' && (c == 'İ' || c == 'ı')) || (pattern == 's' && c == 'ſ')

/-- The text after this word, if it starts with it, case aside. -/
def dropWord : List Char → List Char → Option (List Char)
  | [], cs => some cs
  | _ :: _, [] => none
  | p :: ps, c :: cs => if sameLetter p c then dropWord ps cs else none

/-- Is the character a quote? -/
def isQuote (c : Char) : Bool :=
  c == '"' || c == '\''

/-- Read `src=`, the quoted address and the rest of the tag: the address and what follows the
tag. -/
def readAddress (cs : List Char) : Option (List Char × List Char) :=
  match dropWord "src=".toList cs with
  | some (quote :: rest) =>
    if isQuote quote then
      let address := rest.takeWhile (fun c => !isQuote c)
      match rest.dropWhile (fun c => !isQuote c) with
      | _ :: rest =>
        match rest.dropWhile (· != '>') with
        | _ :: rest => if address.isEmpty then none else some (address, rest)
        | [] => none
      | [] => none
    else none
  | _ => none

/-- The last address within a tag. -/
def lastAddress : List Char → Option (List Char × List Char)
  | [] => none
  | c :: cs =>
    if c == '>' then none
    else
      match lastAddress cs with
      | some found => some found
      | none => readAddress (c :: cs)

/-- Read a tag at the start of a text: its address and what follows. -/
def readTag (cs : List Char) : Option (List Char × List Char) :=
  match dropWord "<script".toList cs with
  | some (c :: rest) => if c == '>' then none else lastAddress rest
  | _ => none

theorem dropWord_length {ps cs rest : List Char} (h : dropWord ps cs = some rest) :
    rest.length ≤ cs.length := by
  induction ps generalizing cs with
  | nil => simp [dropWord] at h; simp [h]
  | cons p ps ih =>
    cases cs with
    | nil => simp [dropWord] at h
    | cons c cs =>
      simp only [dropWord] at h
      split at h
      · have := ih h
        simp only [List.length_cons]
        omega
      · simp at h

theorem readAddress_length {cs a rest : List Char} (h : readAddress cs = some (a, rest)) :
    rest.length ≤ cs.length := by
  unfold readAddress at h
  split at h
  case h_2 => simp at h
  case h_1 quote r hd =>
    have h1 := dropWord_length hd
    split at h
    case isFalse => simp at h
    case isTrue =>
      dsimp only at h
      split at h
      case h_2 => simp at h
      case h_1 r2 hq =>
        have h2 := (List.dropWhile_suffix (l := r) (fun c => !isQuote c)).length_le
        rw [hq] at h2
        split at h
        case h_2 => simp at h
        case h_1 r3 hg =>
          have h3 := (List.dropWhile_suffix (l := r2) (· != '>')).length_le
          rw [hg] at h3
          split at h
          case isTrue => simp at h
          case isFalse =>
            simp only [Option.some.injEq, Prod.mk.injEq] at h
            obtain ⟨_, rfl⟩ := h
            simp only [List.length_cons] at h1 h2 h3
            omega

theorem lastAddress_length {cs a rest : List Char} (h : lastAddress cs = some (a, rest)) :
    rest.length ≤ cs.length := by
  induction cs with
  | nil => simp [lastAddress] at h
  | cons c cs ih =>
    unfold lastAddress at h
    split at h
    · simp at h
    · split at h
      · rename_i found hf
        have := ih (by rw [hf, ← h])
        simp only [List.length_cons]
        omega
      · exact readAddress_length h

theorem readTag_length {cs a rest : List Char} (h : readTag cs = some (a, rest)) :
    rest.length < cs.length := by
  unfold readTag at h
  split at h
  case h_2 => simp at h
  case h_1 c r hd =>
    have h1 := dropWord_length hd
    split at h
    · simp at h
    · have h2 := lastAddress_length h
      simp only [List.length_cons] at h1
      omega

/-- The addresses of all tags of a text, in order. -/
def addresses (cs : List Char) : List (List Char) :=
  match _h : readTag cs with
  | some (address, rest) => address :: addresses rest
  | none =>
    match cs with
    | [] => []
    | _ :: cs => addresses cs
termination_by cs.length
decreasing_by
  · exact readTag_length (by assumption)
  · simp

/-- Starts of addresses outside the tree. -/
def external : List String :=
  ["http://", "https://", "//"]

/-- The path in an address: blanks, fragment and query dropped. Addresses outside the tree have
none. -/
def localPath? (address : List Char) : Option String :=
  let address := Words.strip address
  if external.any (fun e => e.toList.isPrefixOf address) then none
  else
    let path := (address.takeWhile (· != '#')).takeWhile (· != '?')
    if path.isEmpty then none else some (String.ofList path)

/-- Where a local path leads: from the root if it starts with a slash, from the page's directory
if not. -/
def destination (page root path : String) : String :=
  let place :=
    if path.startsWith "/" then
      Path.join root (String.ofList (path.toList.dropWhile (· == '/')))
    else Path.join (Path.directory page) path
  Path.normalize place

end ScriptTags

/-- The files under the root that the script tags of a page name, relative to the root. -/
def scriptFiles (d : Disk) (html page root : String) : List String :=
  (((ScriptTags.addresses html.toList).filterMap ScriptTags.localPath?).map
    (ScriptTags.destination page root)).filter (Resolve.isMember d root)
    |>.map (Path.relative d.cwd root)

end CodeGraph
