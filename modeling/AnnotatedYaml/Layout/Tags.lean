import AnnotatedYaml.Tree.Basic

/-! Writing tags in short form. -/

namespace AnnotatedYaml

structure TagScope where
  /-- Handles with what they stand for. -/
  handles : List (String × String)
  deriving Repr, Inhabited

namespace TagScope

def standard : TagScope := ⟨[("!", "!"), ("!!", "tag:yaml.org,2002:")]⟩

/-- The standard handles with `directives` applied in order: a directive for a known handle
replaces its expansion, another adds a handle. -/
def forDocument (directives : List TagDirective) : TagScope :=
  directives.foldl (fun s d =>
    if s.handles.any (·.1 == d.handle) then
      ⟨s.handles.map fun (h, e) => if h == d.handle then (h, d.expansion) else (h, e)⟩
    else ⟨s.handles ++ [(d.handle, d.expansion)]⟩) standard

def isHexByte (b : UInt8) : Bool :=
  (48 ≤ b && b ≤ 57) || (65 ≤ b && b ≤ 70) || (97 ≤ b && b ≤ 102)

/-- Bytes a tag suffix may hold besides `%` escapes. -/
def isSuffixByte (b : UInt8) : Bool :=
  (48 ≤ b && b ≤ 57) || (65 ≤ b && b ≤ 90) || (97 ≤ b && b ≤ 122) ||
    "-;/?:@&=+$_.~*'()".toUTF8.toList.contains b

/-- A valid tag suffix: not empty, made of ASCII letters, digits, the URI marks above and
`%` escapes of two hexadecimal digits. -/
def isSuffix (s : String) : Bool :=
  let rec go : List UInt8 → Bool
    | [] => true
    | 37 :: a :: b :: rest => isHexByte a && isHexByte b && go rest
    | 37 :: _ => false
    | b :: rest => isSuffixByte b && go rest
  !s.isEmpty && go s.toUTF8.toList

/-- The short form of `tag`. -/
def render (scope : TagScope) (tag : String) : String :=
  if tag == "!" then "!"
  else
    let fits := scope.handles.filterMap fun (h, e) =>
      if tag.startsWith e then
        let suffix := String.ofList (tag.toList.drop e.length)
        if isSuffix suffix then some (h, e.utf8ByteSize, suffix) else none
      else none
    let best := fits.foldl (fun acc x =>
      match acc with
      | none => some x
      | some y => if x.2.1 ≥ y.2.1 then some x else some y) none
    match best with
    | some (h, _, suffix) => h ++ suffix
    | none => "!<" ++ tag ++ ">"

end TagScope

end AnnotatedYaml
