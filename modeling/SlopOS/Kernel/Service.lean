import SlopOS.Kernel.Proc
/-!
# `service.c`

The table of named services.  Entries of dead owners are dropped by the
lookups that pass over them.
-/

namespace SlopOS.Kernel

abbrev maxServices : Nat := 16
def serviceNameMax : Nat := 15

structure ServiceEntry where
  used : Bool
  pid : Int
  name : CStr
deriving Repr, DecidableEq

abbrev Services := Fin maxServices → ServiceEntry

def emptyService : ServiceEntry := ⟨false, -1, []⟩

def serviceInit : Services := fun _ => emptyService

def serviceChar (c : U8) : Bool :=
  (decide (chr 'a' ≤ c) && decide (c ≤ chr 'z')) ||
  (decide (chr 'A' ≤ c) && decide (c ≤ chr 'Z')) ||
  (decide (chr '0' ≤ c) && decide (c ≤ chr '9')) || decide (c = chr '-') || decide (c = chr '_')

/-- `service_register`: the table after a successful registration. -/
def serviceRegister (proc : ProcTable) (services : Services) (name : CStr) (pid : Int) :
    Option Services :=
  if name = [] ∨ pid < 0 ∨ procStateOf proc pid = .unused then none
  else if serviceNameMax < name.length ∨ ¬name.all serviceChar then none
  else
    match Fin.find? fun i => (services i).used && strEq (services i).name name with
    | some i => some (Function.update services i { services i with pid := pid })
    | none =>
      match Fin.find? fun i => !(services i).used with
      | none => none
      | some i =>
        some (Function.update services i ⟨true, pid, strCopy name (serviceNameMax + 1)⟩)

/-- The scan of `service_lookup` over the slots `is`, dropping dead owners on the
way. -/
def serviceScan (proc : ProcTable) (name : CStr) :
    List (Fin maxServices) → Services → Int × Services
  | [], services => (-1, services)
  | i :: is, services =>
    if ¬(services i).used then serviceScan proc name is services
    else if procStateOf proc (services i).pid = .unused then
      serviceScan proc name is (Function.update services i emptyService)
    else if strEq (services i).name name then ((services i).pid, services)
    else serviceScan proc name is services

def serviceLookup (proc : ProcTable) (services : Services) (name : CStr) : Int × Services :=
  if name = [] then (-1, services)
  else serviceScan proc name (List.finRange maxServices) services

end SlopOS.Kernel
