import TopicSchema.Main
import TopicSchema.Proofs.Schema.BlockTree
import TopicSchema.Proofs.Schema.FieldLines
import TopicSchema.Proofs.Schema.Placement
import TopicSchema.Proofs.Schema.Scoping
import TopicSchema.Proofs.Schema.DistinctNames
import TopicSchema.Proofs.Schema.PlainValues
import TopicSchema.Proofs.Schema.Success
import TopicSchema.Proofs.Schema.EnumValues
import TopicSchema.Proofs.Batch.FirstFailure
import TopicSchema.Proofs.Batch.FileOrder
import TopicSchema.Proofs.Batch.AppendedFiles
import TopicSchema.Proofs.Command.DiskGrowth
import TopicSchema.Proofs.Command.Storing
import TopicSchema.Proofs.Command.CommandLine
import TopicSchema.Proofs.Command.PluginAgreement
import TopicSchema.Proofs.Descriptor.Concatenation
import TopicSchema.Proofs.Descriptor.ReaderAgreement
import TopicSchema.Proofs.Plugin.Envelope
import TopicSchema.Proofs.Schema.LineBreaks
import TopicSchema.Proofs.Schema.Termination
import TopicSchema.Proofs.Schema.Indentation
import TopicSchema.Proofs.Schema.Dialects
import TopicSchema.Proofs.Schema.FlattenedTypes
import TopicSchema.Proofs.Index.Duplicates
import TopicSchema.Proofs.Descriptor.Conversion
import TopicSchema.Proofs.Schema.FieldOrder
import TopicSchema.Proofs.Options.Parameter
import TopicSchema.Proofs.Command.OwnSchemas
import TopicSchema.Proofs.Command.OutputDirectory
import TopicSchema.Proofs.Schema.OwnTypes
