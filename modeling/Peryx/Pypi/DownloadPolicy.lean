import Peryx.Pypi.Download

/-! # What the download policy refuses -/

namespace Peryx.Pypi

section Verdicts
variable (table : CaseMap) (pep : Pep440) (parseUploadTime : Str → Option Int)

end Verdicts

section Status
variable (reads : DownloadReads) (indexes : List Index) (project : Str)

end Status

section Refusals
variable (table : CaseMap) (pep : Pep440) (parseUploadTime : Str → Option Int)
variable (reads : DownloadReads) (indexes : List Index) (index : Index)

variable (neutral : PolicyConfig) (normalize : Str → Str) (config : PypiPolicyConfig)

end Refusals

end Peryx.Pypi
