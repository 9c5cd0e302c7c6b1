import CvmMeasure.Python.Dict
import CvmMeasure.Python.Exceptions
import CvmMeasure.Python.Unicode
import CvmMeasure.Tdx.Guid

/-! # UEFI variable measurement

`uefi.py`: the `UEFI_VARIABLE_DATA` structure an EV_EFI_VARIABLE_DRIVER_CONFIG event measures, and the
digest of it. -/

namespace CvmMeasure.Tdx

open Binary Python

def efiGlobalVariableGuid : String := "8be4df61-93ca-11d2-aa0d-00e098032b8c"
def efiImageSecurityDatabaseGuid : String := "d719b2cb-3d3a-4596-a3bc-dad00e67656f"

/-- The GUID of each Secure Boot variable. -/
def securebootVarGuids : Dict String String :=
  [("SecureBoot", efiGlobalVariableGuid),
   ("PK", efiGlobalVariableGuid),
   ("KEK", efiGlobalVariableGuid),
   ("db", efiImageSecurityDatabaseGuid),
   ("dbx", efiImageSecurityDatabaseGuid)]

/-- `build_uefi_variable_data`: the GUID, the two lengths, the name in UTF-16 and the data. A Python
string or byte string is far below `2 ^ 64` long, so the lengths always pack. -/
def buildUefiVariableData (guid name : String) (data : Bytes) : Bytes :=
  guidStrToEfiBytes guid ++ (leBytes 8 name.length ++ (leBytes 8 data.length ++
    (utf16LeEncode name.toList ++ data)))

/-- `compute_variable_digest`. -/
def computeVariableDigest (sha384 : Bytes → Bytes) (guid name : String) (data : Bytes) : Bytes :=
  sha384 (buildUefiVariableData guid name data)

/-- `compute_secureboot_digest`: the digest of a Secure Boot variable by name. -/
def computeSecurebootDigest (sha384 : Bytes → Bytes) (name : String) (data : Bytes) : Py Bytes :=
  match securebootVarGuids.get? name with
  | none => throw (.keyError name)
  | some guid => pure (computeVariableDigest sha384 guid name data)

end CvmMeasure.Tdx
