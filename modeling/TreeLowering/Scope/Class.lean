/-! # Storage and access classes of bindings -/
namespace TreeLowering
set_option autoImplicit false

/-- Where a binding lives when the program runs. -/
inductive StorageClass where
  /-- Declared by the local allocation line of its function. -/
  | local
  /-- Passed in as a parameter. -/
  | argument
  /-- A property of a container object. -/
  | namespaced
  /-- Stands for something that already exists. -/
  | unmaterialized
deriving DecidableEq, Inhabited

namespace StorageClass

def label : StorageClass → String
  | .local => "LOCAL"
  | argument => "ARGUMENT"
  | namespaced => "NAMESPACED"
  | unmaterialized => "UNMATERIALIZED"

/-- Reads a storage class in either of its spellings. -/
def parse? : String → Option StorageClass
  | "LOCAL" => some .local
  | "ARGUMENT" => some argument
  | "NAMESPACED" | "PROP_ASSIGNMENT" => some namespaced
  | "UNMATERIALIZED" | "NONE" => some unmaterialized
  | _ => none

/-- The binding owns a name in the namespace of its function. -/
def isFunctionSlot : StorageClass → Bool
  | .local | argument => true
  | namespaced | unmaterialized => false

end StorageClass

/-- How emitted code refers to a binding. -/
inductive AccessClass where
  /-- By its target name. -/
  | direct
  /-- As a member of its container. -/
  | member
deriving DecidableEq, Inhabited

namespace AccessClass

def label : AccessClass → String
  | direct => "DIRECT"
  | member => "MEMBER"

/-- Reads an access class in either of its spellings. -/
def parse? : String → Option AccessClass
  | "DIRECT" | "BARE" => some direct
  | "MEMBER" | "PROP_ACCESS" => some member
  | _ => none

end AccessClass
end TreeLowering
