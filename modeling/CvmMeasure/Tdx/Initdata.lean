import CvmMeasure.Initdata.Algorithm
import CvmMeasure.Python.Hex
import CvmMeasure.Tdx.Rtmr

/-! # Initdata on TDX

`tdx/initdata.py` and what the command line makes of it: RTMR[3] is extended through a 48-byte interface, so
only SHA-384 will do.

* **`computeInitdataDigest`**: the digest of an initdata document that declares SHA-384;
* **`initdataRtmr3`**: RTMR[3], extended once with it. -/

namespace CvmMeasure.Tdx

open Binary Python

def tdxAlgorithm : String := "sha384"

/-- `compute_digest`: SHA-384 of the raw TOML bytes. -/
def computeInitdataDigest (hashNew : String → Bytes → Bytes) (initdata : Bytes) : Py Bytes :=
  Initdata.computeDigest hashNew initdata (some tdxAlgorithm)

/-- RTMR[3] of a guest that was started with an initdata document. -/
def initdataRtmr3 (sha384 : Bytes → Bytes) (hashNew : String → Bytes → Bytes) (initdata : Bytes) :
    Py String := do
  let digest ← computeInitdataDigest hashNew initdata
  pure (hex (extendRtmr sha384 (List.replicate sha384Size 0x00) digest))

end CvmMeasure.Tdx
