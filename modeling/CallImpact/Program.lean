import CallImpact.Facts
import CallImpact.Names
import CallImpact.Ordered
import CallImpact.Preorder

/-!
# The program model

The facts of all files of a module as one whole: functions by number, declared types, methods with
promotion through embedding, and the functions that a graph can start from. What a struct promotes
is found in three ways: the method of a name and the type of a field by a search that goes down from
struct to struct (`firstAnswer?`), the method set by a union that does so too (`gathered`), and the
owner of a field along the depth-first order of the embedded structs (`embeddedIn`). What an
interface requires is collected from a stack.
-/

namespace CallImpact

/-- A function or method of a module. -/
structure Function where
  package : String
  packageName : String
  file : String
  decl : FuncDecl
  deriving Repr, BEq, DecidableEq, Inhabited

namespace Function

/-- The declared name. -/
def name (f : Function) : String :=
  f.decl.name

/-- The type that a method belongs to. -/
def receiverType? (f : Function) : Option TypeRef :=
  f.decl.receiver.map fun r => ⟨f.package, r.type⟩

/-- The full name. -/
def fullName (f : Function) : String :=
  CallImpact.fullName f.package (f.decl.receiver.map fun r => (r.type, r.pointer)) f.decl.name

/-- The name within the package: `F` or `T.M`. -/
def localName (f : Function) : String :=
  match f.decl.receiver with
  | some r => r.type ++ "." ++ f.decl.name
  | none => f.decl.name

end Function

/-- A module. Functions are numbered in order; of two declarations of one type the first in `types`
counts. -/
structure Program where
  modulePath : String
  functions : List Function
  types : List (TypeRef × TypeShape)
  deriving Repr, Inhabited

namespace Program

/-- Puts the facts of files together: files in order of their paths, and a later declaration of a
type in place of an earlier one. -/
def ofFiles (modulePath : String) (files : List FileFacts) : Program :=
  let files := files.mergeSort fun a b => decide (a.path ≤ b.path)
  { modulePath
    functions := files.flatMap fun f => f.functions.map fun decl =>
      { package := f.packagePath, packageName := f.packageName, file := f.path, decl }
    types :=
      (files.flatMap fun f => f.types.map fun t => (⟨f.packagePath, t.name⟩, t.shape)).reverse }

/-- The number of functions. -/
def size (p : Program) : Nat :=
  p.functions.length

/-! ## Types -/

/-- What kind of type a declared type is. -/
def shape? (p : Program) (t : TypeRef) : Option TypeShape :=
  p.types.lookup t

/-- Whether the module declares a type. -/
def declares (p : Program) (t : TypeRef) : Bool :=
  (p.shape? t).isSome

/-- Whether a type is an interface of the module. -/
def isInterface (p : Program) (t : TypeRef) : Bool :=
  match p.shape? t with
  | some (.interface _ _) => true
  | _ => false

/-- Whether the module declares a type that is no interface. -/
def isConcrete (p : Program) (t : TypeRef) : Bool :=
  p.declares t && !p.isInterface t

/-- The declared types that are no interfaces, in order. -/
def concreteTypes (p : Program) : List TypeRef :=
  (orderedSet (fun a b => !TypeRef.le b a) (p.types.map (·.1))).filter p.isConcrete

/-- The types that a struct embeds. -/
def embeddedTypes (p : Program) (t : TypeRef) : List TypeRef :=
  match p.shape? t with
  | some (.struct _ embedded) => embedded
  | _ => []

/-- The interfaces and other types that an interface embeds. -/
def embeddedInterfaces (p : Program) (t : TypeRef) : List TypeRef :=
  match p.shape? t with
  | some (.interface _ embedded) => embedded
  | _ => []

/-- A type and all types reached from it through struct embedding, in depth-first order. -/
def embeddedIn (p : Program) (t : TypeRef) : List TypeRef :=
  preorder (p.types.map (·.1)) p.embeddedTypes t

/-! ## Methods -/

/-- The method that a type itself declares; the last declaration counts. -/
def declaredMethod? (p : Program) (t : TypeRef) (method : String) : Option Nat :=
  (p.functions.zipIdx.reverse.find? fun (f, _) =>
    f.receiverType? == some t && f.name == method).map (·.2)

/-- The method of a type, declared or promoted. -/
def lookupMethod? (p : Program) (t : TypeRef) (method : String) : Option Nat :=
  firstAnswer? (p.types.map (·.1)) p.embeddedTypes (fun u => p.declaredMethod? u method) t

/-- The names of the methods that a type itself declares. -/
def declaredMethods (p : Program) (t : TypeRef) : List String :=
  (p.functions.filter fun f => f.receiverType? == some t).map (·.name)

/-- The names of the methods of a concrete type, declared and promoted. -/
def methodSet (p : Program) (t : TypeRef) : List String :=
  if p.isConcrete t then gathered (p.types.map (·.1)) p.embeddedTypes p.declaredMethods t else []

/-- Whether a concrete type has a method. -/
def hasMethod (p : Program) (t : TypeRef) (method : String) : Bool :=
  (p.methodSet t).contains method

/-- The names of the methods that an interface itself lists. -/
def listedMethods (p : Program) (t : TypeRef) : List String :=
  match p.shape? t with
  | some (.interface methods _) => methods
  | _ => []

/-- The names of the methods that an interface requires, those of embedded interfaces included, in
order. Of the interfaces that one embeds, the last is on top of the stack. -/
def interfaceMethods (p : Program) (iface : TypeRef) : List String :=
  let visited := preorder (p.types.map (·.1)) (fun i => (p.embeddedInterfaces i).reverse) iface
  orderedTexts (visited.flatMap p.listedMethods)

/-- Whether a concrete type has all methods of an interface that requires at least one. -/
def implements (p : Program) (t iface : TypeRef) : Bool :=
  let required := p.interfaceMethods iface
  !required.isEmpty && p.isConcrete t && required.all (p.methodSet t).contains

/-! ## Fields -/

/-- The type of a field or embedded type that a struct itself declares under a name. -/
def declaredField? (p : Program) (t : TypeRef) (field : String) : Option TypeRef :=
  match p.shape? t with
  | some (.struct fields embedded) =>
    (fields.lookup field) <|> embedded.find? fun e => e.name == field
  | _ => none

/-- The type of a field, declared or promoted. -/
def fieldType? (p : Program) (t : TypeRef) (field : String) : Option TypeRef :=
  firstAnswer? (p.types.map (·.1)) p.embeddedTypes (fun u => p.declaredField? u field) t

/-- Whether a struct itself declares a field, embedded types aside. -/
def ownsField (p : Program) (field : String) (t : TypeRef) : Bool :=
  match p.shape? t with
  | some (.struct fields _) => fields.any fun (name, _) => name == field
  | _ => false

/-- The struct that declares a field which a type has, itself or promoted. -/
def fieldOwner? (p : Program) (t : TypeRef) (field : String) : Option TypeRef :=
  (p.embeddedIn t).find? (p.ownsField field)

/-! ## Functions of packages, and entries -/

/-- The function of a package with a name; the first declaration counts. -/
def packageFunction? (p : Program) (package name : String) : Option Nat :=
  p.functions.findIdx? fun f => f.decl.receiver.isNone && f.package == package && f.name == name

/-- Whether a function starts a program: `main` of a main package, or `init`. -/
def isEntry (f : Function) : Bool :=
  f.decl.receiver.isNone && ((f.name == "main" && f.packageName == "main") || f.name == "init")

/-- The functions that start a program. -/
def defaultEntries (p : Program) : List Nat :=
  (p.functions.zipIdx.filter fun (f, _) => isEntry f).map (·.2)

/-- Drops every leading `./`. -/
def dropCurrent : List Char → List Char
  | '.' :: '/' :: rest => dropCurrent rest
  | cs => cs

/-- A file path as it is compared: without leading `./`, and with slashes for backslashes. -/
def comparablePath (path : String) : String :=
  String.ofList ((dropCurrent path.toList).map fun c => if c = '\\' then '/' else c)

/-- Whether two paths agree: they are equal, or one ends in a slash and the other. -/
def pathsAgree (a b : String) : Bool :=
  a == b || Text.endsWith a ("/" ++ b) || Text.endsWith b ("/" ++ a)

/-- The first function with a local or full name, in a file that agrees with the given one. -/
def resolveEntry? (p : Program) (file : Option String) (function : String) : Option Nat :=
  p.functions.findIdx? fun f =>
    (f.localName == function || f.fullName == function) &&
      (file.map comparablePath).all fun wanted => pathsAgree f.file wanted

end Program

end CallImpact
