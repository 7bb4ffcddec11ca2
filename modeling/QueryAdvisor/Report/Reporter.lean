import QueryAdvisor.Report.Json
import QueryAdvisor.Report.Plain

/-!
# Reporters

A reporter renders aggregated findings.  The standard one renders each format
that is asked for.
-/

namespace QueryAdvisor

/-- Something that renders reports. -/
structure Reporter where
  render : Aggregate → Summary → Request → Report

namespace Reporter

/-- Render a plain and a JSON report, each if it is asked for. -/
def standard : Reporter where
  render aggregate summary request :=
    { text :=
        if request.asksFor (ascii "text") then Report.Plain.render aggregate summary request
        else []
      json :=
        if request.asksFor (ascii "json") then Report.Json.render aggregate summary request
        else [] }

end Reporter
end QueryAdvisor
