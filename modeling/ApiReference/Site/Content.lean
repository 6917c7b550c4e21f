import ApiReference.Site.Address

namespace ApiReference

/-! What stands on the pages of the reference, before it is laid out as text. -/

/-- What all pages of a project share. -/
structure SiteContext where
  projectName : String
  projectUrl : String
  packageDir : String
  apiDir : String
deriving DecidableEq

/-- The navigation at the top of a page; the overview does not link to itself. -/
structure Header where
  homeAddress : String
  overviewAddress : Option String
  sourceAddress : String
deriving DecidableEq

structure HomeEntry where
  moduleName : String
  address : String
  summary : String
deriving DecidableEq

structure ValueLine where
  name : String
  value : Option String
deriving DecidableEq

structure FunctionLine where
  name : String
  address : String
  summary : String
deriving DecidableEq

structure RecordLine where
  name : String
  description : String
deriving DecidableEq

/-- A member of a class on the overview; the sign stands between name and summary. -/
structure ClassMemberLine where
  name : String
  address : String
  sign : String
  summary : String
deriving DecidableEq

inductive ClassLines where
  | constants (lines : List ValueLine)
  | record (lines : List RecordLine)
  | members (lines : List ClassMemberLine)
deriving DecidableEq

structure ClassEntry where
  name : String
  address : String
  summary : String
  lines : ClassLines
deriving DecidableEq

/-- The overview of a module. Parts without a line are left out. -/
structure Overview where
  header : Header
  moduleName : String
  description : String
  fieldsAddress : String
  fields : List ValueLine
  functionsAddress : String
  functions : List FunctionLine
  classes : List ClassEntry
deriving DecidableEq

structure FieldsPage where
  header : Header
  moduleName : String
  moduleAddress : String
  fields : List ValueLine
deriving DecidableEq

/-- A table of names with descriptions, below an introduction. -/
structure DescribedTable where
  intro : Option String
  entries : List (String × String)
deriving DecidableEq

/-- The documentation of a function or a method. -/
structure FunctionDoc where
  name : String
  description : String
  decorator : Option String
  signature : Option String
  parameters : Option DescribedTable
  returns : Option String
  yields : Option String
  exceptions : Option DescribedTable
deriving DecidableEq

structure FunctionsPage where
  header : Header
  moduleName : String
  moduleAddress : String
  functions : List FunctionDoc
deriving DecidableEq

/-- A base of a class, with the address of its page if it belongs to the project. -/
structure BaseEntry where
  title : String
  address : Option String
deriving DecidableEq

inductive ClassFields where
  | values (lines : List ValueLine)
  | constants (lines : List ValueLine)
  | record (lines : List RecordLine)
deriving DecidableEq

structure PropertyRow where
  name : String
  accessors : List String
  description : String
deriving DecidableEq

structure ClassPage where
  header : Header
  className : String
  moduleName : String
  moduleAddress : String
  bases : List BaseEntry
  description : String
  fields : ClassFields
  properties : List PropertyRow
  methods : List FunctionDoc
deriving DecidableEq

inductive PageContent where
  | home (entries : List HomeEntry)
  | overview (overview : Overview)
  | fields (page : FieldsPage)
  | functions (page : FunctionsPage)
  | classPage (page : ClassPage)
deriving DecidableEq

/-- A page whose text is still to be laid out. -/
structure Draft where
  moduleName : Option String
  basename : String
  content : PageContent
deriving DecidableEq

end ApiReference
