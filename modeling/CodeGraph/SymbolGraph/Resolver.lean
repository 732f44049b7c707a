import CodeGraph.SymbolGraph.Index

/-!
# What a call calls

Four ways to find the target of a call, tried one after the other until one of them finds
something: a symbol of the same file, an imported name, a method of the same file, and at last
every method of that name. The last one is generous and may link too much.
-/

namespace CodeGraph

/-- A way to find the target of a call. -/
inductive Resolver where
  | sameFile
  | imported
  | sameFileMethod
  | anyMethod
  deriving DecidableEq, Repr

namespace Resolver

/-- The usual ways, in their order. -/
def standard : List Resolver :=
  [sameFile, imported, sameFileMethod, anyMethod]

/-- The receiver of a call, unless it is empty. -/
def receiver? (call : CallFact) : Option String :=
  call.objectName.filter (fun name => !name.isEmpty)

/-- A symbol with the called name in the caller's file. -/
def inSameFile (index : SymbolIndex) (file : String) (call : CallFact) : List String :=
  (index.target? file call.callee).toList

/-- The names to look for in the imported file: those of a member of the receiver, or those of the
called name itself. -/
def importedNames (bindings : Table String Binding) (call : CallFact) :
    Option (Binding × List String) :=
  match call.objectName.bind bindings.get? with
  | some b =>
    if b.kind == .wholeModule then some (b, [call.callee])
    else some (b, [b.imported, b.localName, b.imported ++ "." ++ call.callee,
      b.localName ++ "." ++ call.callee])
  | none => (bindings.get? call.callee).map (fun b => (b, [b.imported, b.localName]))

/-- The called name or its receiver is imported. -/
def inImports (index : SymbolIndex) (file : String) (call : CallFact) : List String :=
  match importedNames (index.bindingsIn file) call with
  | some (b, names) => (names.findSome? (index.target? b.fromFile)).toList
  | none => []

/-- The class that the receiver of a call belongs to: for `this`, the class in the caller's
name. -/
def receiverClass? (call : CallFact) : Option String :=
  if call.objectName == some "this" then
    if call.caller.toList.contains '.' then
      some (String.ofList (call.caller.toList.takeWhile (· != '.')))
    else none
  else call.objectName

/-- The class name that stands in for an unknown one. -/
def unknownClass : String := "None"

/-- The method of the receiver's class, of several of one name; failing that, the first one. -/
def pick (call : CallFact) (candidates : List Symbol) : Option Symbol :=
  let owner := (receiverClass? call).getD unknownClass
  match candidates with
  | [only] => some only
  | several =>
    (several.find? (fun s => s.name == owner ++ "." ++ call.callee)).or several.head?

/-- A method of that name in the same file. -/
def inFileMethods (index : SymbolIndex) (file : String) (call : CallFact) : List String :=
  match receiver? call with
  | none => []
  | some _ =>
    ((pick call ((index.methods call.callee).filter (fun s => s.file == file))).map (·.id)).toList

/-- Every method of that name, unless the receiver is known in the file. -/
def inAllMethods (index : SymbolIndex) (file : String) (call : CallFact) : List String :=
  match receiver? call with
  | none => []
  | some receiver =>
    if (index.target? file receiver).isSome || (index.bindingsIn file).contains receiver then []
    else (index.methods call.callee).map (·.id)

/-- The targets that one way finds. -/
def targets (r : Resolver) (index : SymbolIndex) (file : String) (call : CallFact) :
    List String :=
  match r with
  | sameFile => inSameFile index file call
  | imported => inImports index file call
  | sameFileMethod => inFileMethods index file call
  | anyMethod => inAllMethods index file call

end Resolver

/-- The targets of a call: those of the first way that finds any. -/
def resolveCall (index : SymbolIndex) (resolvers : List Resolver) (file : String)
    (call : CallFact) : List String :=
  match resolvers with
  | [] => []
  | r :: rest =>
    let found := r.targets index file call
    if found.isEmpty then resolveCall index rest file call else found

end CodeGraph
