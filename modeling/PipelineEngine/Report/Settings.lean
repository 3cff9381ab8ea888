import PipelineEngine.Report.Errors
import PipelineEngine.Settings.Load

/-!
# Descriptions of settings
-/

namespace PipelineEngine

def Settings.toValue (s : Settings) : Value :=
  .ofPairs [
    ("home", .string s.home), ("runs_dir", .string s.runsDirectory),
    ("document", Report.optional s.document), ("config_file", Report.optional s.configFile),
    ("limits", s.limits.toValue), ("retry", s.retry.toValue),
    ("channel_capacity", .nat s.channelCapacity), ("max_poll_seconds", .nat s.maxPollSeconds),
    ("node_id", .nat s.nodeId), ("journal", .bool s.journal), ("launcher", .string s.launcher)]

instance : Reportable SettingsError where
  report _ := ⟨"Settings", none, []⟩

end PipelineEngine
