import ApiReference.Symbols.Record

namespace ApiReference.Sample

/-! A small package to try things on: a module of fields, functions and classes, a module
of special forms, and an `__init__` module that exports them all. -/

/-- The package directory, relative to the project. -/
def packageDir : String := "src/my_project"

def module1 : String := "my_project.package1.module1"

def module2 : String := "my_project.package2.module2"

def initModule : String := "my_project.__init__"

def initDoc : String := " ".intercalate
  ["This module docstring describes the module.",
   "This module exposes fields, functions, and classes.",
   "Fields are variables and constants.",
   "A class has members: class fields, properties, and methods.",
   "This docstring is deliberately long enough for testing the ellipsis function."]

def function2Doc : String := "\n".intercalate
  ["This is an unnamed section. It represents the description ",
   "for the function. It is deliberately long enough for testing",
   "the ellipsis function",
   "",
   "[param]",
   "Introducing parameters",
   "- arg: Argument",
   "- code: Integer",
   "- name: String",
   "",
   "[return]",
   "An integer",
   "",
   "[except]",
   "Introducing exceptions",
   "- Exception: An exception"]

def generatorDoc : String := "\n".intercalate
  ["Multiline ",
   "description",
   "",
   "[param]",
   "- arg: Argument",
   "- code: Integer",
   "- name: String",
   "",
   "[yield]",
   "Integers",
   "",
   "[except]",
   "- Exception: An exception"]

def constructorDoc : String := "\n".intercalate
  ["Multiline ",
   "description",
   "",
   "[param]",
   "- arg: Argument",
   "- name: String",
   "- code: Integer",
   "",
   "[except]",
   "Introducing exceptions",
   "- Exception: An exception"]

def staticMethodDoc : String := "\n".intercalate
  ["Multiline",
   "description",
   "",
   "[param]",
   "- a: A",
   "- b: B",
   "- c: C",
   "",
   "[return]",
   "An integer"]

def classMethodDoc : String := "\n".intercalate
  ["Multiline",
   "description",
   "",
   "[param]",
   "- a: A",
   "- b: B",
   "",
   "[return]",
   "An integer"]

def class1 : String := module1 ++ ".MyClass1"

def class2 : String := module1 ++ ".MyClass2"

def enumeration : String := module2 ++ ".MyEnum"

def user : String := module2 ++ ".User"

def constructorSignature : String := "(arg, name='alex', code=42)"

/-- The attributes that two of the modules share. -/
def sharedAttributes : List (String × AttributeRecord) :=
  [("NAME", .ofData module1 "'alex'"),
   ("CODE", .ofData module1 "42"),
   ("my_func1", .ofFunction module1 "(arg, name='alex', code=42)"),
   ("my_func2",
    { AttributeRecord.ofFunction module1 "(arg, code=420, name='alexr')" with
      doc := some function2Doc }),
   ("my_generator",
    { AttributeRecord.ofFunction module1 "(arg, code=42, name='alex')" with
      doc := some generatorDoc }),
   ("MyClass1",
    { AttributeRecord.ofClass module1 class1 with signature := some constructorSignature }),
   ("MyClass2",
    { AttributeRecord.ofClass module1 class2 with signature := some constructorSignature })]

def module1Record : ModuleRecord where
  name := module1
  doc := some "Module 1"
  attributes := .ofList (("__name__", .ofData module1 ("'" ++ module1 ++ "'")) :: sharedAttributes)

def specialForms : List (String × AttributeRecord) :=
  [("MyEnum", .ofClass module2 enumeration),
   ("User", { AttributeRecord.ofClass module2 user with signature := some "(code, name)" })]

def module2Record : ModuleRecord where
  name := module2
  attributes := .ofList
    ([("Enum", .ofClass "enum" "enum.Enum"),
      ("namedtuple", .ofFunction "collections" "(typename, field_names)")] ++ specialForms)

def initRecord : ModuleRecord where
  name := initModule
  doc := some initDoc
  exports := some ["NAME", "CODE", "my_func1", "my_func2", "my_generator", "MyClass1", "MyClass2",
    "MyEnum", "User"]
  attributes := .ofList
    (sharedAttributes ++ specialForms ++ [("ignored_func", .ofFunction "my_project" "(a, b, c)")])

def class1Record : TypeRecord :=
  { TypeRecord.ofName module1 "MyClass1" with
    bases := [rootTypeId]
    attributes := .ofList
      [("__init__",
        { ClassAttribute.ofMethod "(self, arg, name='alex', code=42)" .perInstance with
          doc := some constructorDoc }),
       ("__dict__", .ofField "<attribute '__dict__'>"),
       ("method", .ofMethod "(self)" .perInstance),
       ("static_method",
        { ClassAttribute.ofMethod "(a, b, c)" .static with doc := some staticMethodDoc }),
       ("class_method",
        { ClassAttribute.ofMethod "(a, b)" .perClass with doc := some classMethodDoc })] }

def class2Record : TypeRecord where
  name := "MyClass2"
  moduleName := module1
  doc := some "Docstring for the class"
  bases := [class1]
  mro := [class2, class1, rootTypeId]
  attributes := .ofList
    [("method",
      { ClassAttribute.ofMethod "(self)" .perInstance with doc := some "New docstring" }),
     ("new_method", .ofMethod "(self)" .perInstance)]

def enumerationRecord : TypeRecord where
  name := "MyEnum"
  moduleName := module2
  doc := some "My enumeration"
  bases := ["enum.Enum"]
  mro := [enumeration, "enum.Enum", rootTypeId]
  form := .enumeration [⟨"CODE", "42"⟩, ⟨"NAME", "'alex'"⟩]

def userRecord : TypeRecord where
  name := "User"
  moduleName := module2
  doc := some "User namedtuple"
  bases := ["builtins.tuple"]
  mro := [user, "builtins.tuple", rootTypeId]
  form := .record [⟨"code", some "The code field"⟩, ⟨"name", some "The name field"⟩]

def table : SymbolTable :=
  let modules := [module1Record, module2Record, initRecord]
  let types := [class1Record, class2Record, enumerationRecord, userRecord]
  types.foldl SymbolTable.addType (modules.foldl SymbolTable.addModule {})

/-- The source files of the package and the page beside it, with their texts. -/
def sources : List (String × String) :=
  [("src/my_project/__init__.py", "from my_project.package1.module1 import *\n"),
   ("src/my_project/package1/module1.py", "\"\"\"Module 1\"\"\"\n"),
   ("src/my_project/package2/module2.py", "from enum import Enum\n"),
   ("README.md", "# MyProject\n")]

end ApiReference.Sample
